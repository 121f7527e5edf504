import QuantumNode.Proofs.Mapping.Simulation

/-
  Mapping preserves control flow and classical behaviour: the mapped subroutine goes through the
  blocks for the lines that the subroutine goes through. At each line it is in a state beside, apart
  from the registers that blocks have set and that were not set again. What a mapping records about
  qubit registers is what they hold if they are steady.
-/

open List

namespace QuantumNode.Mapping
variable {i : Instr} {visits : List (Int × Node)} {block : List Instr} {s s' t : Node}
open Node Machine

---- Registers along a run

def linesOf (visits : List (Int × Node)) : List Nat := visits.map fun v => v.1.toNat

section Registers
variable (is : List Instr) (bs : List (List Instr))

-- The registers that the block for a line sets for itself.
def scratchAt (n : Nat) : List Reg :=
  match is[n]?, bs[n]? with
  | some i, some block => scratch i block
  | _, _ => []

def soiledAt (dirty : List Reg) (n : Nat) : List Reg :=
  match is[n]?, bs[n]? with
  | some i, some block => soiled i block dirty
  | _, _ => dirty

def soiledBy (dirty : List Reg) (lines : List Nat) : List Reg := lines.foldl (soiledAt is bs) dirty

-- No line reads a register that may differ there.
def Avoids : List Reg → List Nat → Prop
  | _, [] => True
  | dirty, n :: rest =>
    (∀ i ∈ is[n]?, ∀ r ∈ reads i, r ∉ dirty) ∧ Avoids (soiledAt is bs dirty n) rest

instance Avoids.decidable : ∀ dirty lines, Decidable (Avoids is bs dirty lines)
  | _, [] => isTrue trivial
  | dirty, n :: rest =>
    have := Avoids.decidable (soiledAt is bs dirty n) rest
    inferInstanceAs (Decidable
      ((∀ i ∈ is[n]?, ∀ r ∈ reads i, r ∉ dirty) ∧ Avoids is bs (soiledAt is bs dirty n) rest))

end Registers

variable {is code : List Instr} {bs : List (List Instr)}
variable {dirty : List Reg}

theorem soiledAt_eq (hAt : is[n]? = some i) (hBlock : bs[n]? = some block) (dirty : List Reg) :
    soiledAt is bs dirty n = soiled i block dirty := by
  simp [soiledAt, hAt, hBlock]

theorem avoids_append (hAvoids : Avoids is bs dirty (first ++ second)) :
    Avoids is bs dirty first ∧ Avoids is bs (soiledBy is bs dirty first) second := by
  induction first generalizing dirty with
  | nil => exact ⟨trivial, hAvoids⟩
  | cons n rest ih =>
    rcases ih hAvoids.2 with ⟨hRest, hSecond⟩
    exact ⟨⟨hAvoids.1, hRest⟩, hSecond⟩

-- Registers differ only if a block has set them for itself.
theorem soiledBy_subset (lines : List Nat) :
    soiledBy is bs dirty lines ⊆ lines.flatMap (scratchAt is bs) ++ dirty := by
  induction lines generalizing dirty with
  | nil => exact fun r hr => hr
  | cons n rest ih =>
    have hAt : soiledAt is bs dirty n ⊆ scratchAt is bs n ++ dirty := by
      unfold soiledAt scratchAt
      split
      · exact append_subset.mpr ⟨subset_append_left _ _,
          fun r hr => mem_append_right _ (mem_of_mem_filter hr)⟩
      · exact fun r hr => hr
    intro r hr
    rcases mem_append.mp (ih hr) with hLater | hHere
    · simp [hLater]
    · rcases mem_append.mp (hAt hHere) with hHere | hDirty
      · simp [hHere]
      · simp [hDirty]

-- Visits to lines go together with visits to whole blocks, one for each line. A block starts in a
-- state beside that of its line and is visited line by line.
inductive Tracks (sub : Nat) (app : Int) (is : List Instr) (bs : List (List Instr)) :
    List Reg → List (Int × Node) → List (Int × Node) → Prop
  | nil {dirty : List Reg} : Tracks sub app is bs dirty [] []
  | cons {dirty : List Reg} {n : Nat} {s t : Node} {block : List Instr}
      {visits group others : List (Int × Node)} :
      bs[n]? = some block → Beside sub app dirty s t →
      group.head? = some ((startOf bs n : Int), t) →
      group.map Prod.fst = rows (startOf bs n) block.length →
      Tracks sub app is bs (soiledAt is bs dirty n) visits others →
      Tracks sub app is bs dirty (((n : Int), s) :: visits) (group ++ others)

section Runs
variable {sub : Nat} {app : Int}

theorem Expansion.nonempty (hExpansion : Expansion i block) : block ≠ [] := by
  cases hExpansion with
  | kept | turned | exchanged => exact cons_ne_nil _ _
  | played _ hPlays => exact hPlays.nonempty

theorem path_follows (hLaid : Laid is bs code) (hLegal : ∀ i ∈ is, i.Legal .vanilla)
    (hLeads : ∀ i ∈ is, Leads is.length i)
    (hPath : Path (program sub is.toArray) line s visits line' s')
    (hMeets : Meets bs is.length line start) (hBeside : Beside sub app dirty s t)
    (hAvoids : Avoids is bs dirty (linesOf visits)) :
    ∃ stop visits' t', Meets bs is.length line' stop ∧
      Path (program sub code.toArray) start t visits' stop t' ∧
      Tracks sub app is bs dirty visits visits' ∧
      Beside sub app (soiledBy is bs dirty (linesOf visits)) s' t' := by
  induction hPath generalizing start t dirty with
  | here => exact ⟨start, [], t, hMeets, .here, .nil, hBeside⟩
  | @next line line₁ line' s s₁ s' x visits hAt hStep _ ih =>
    rcases hMeets with ⟨n, hBound, rfl, rfl⟩
    rcases program_at hAt with ⟨i, hInstr, rfl⟩
    have hMember : i ∈ is := mem_of_getElem? hInstr
    rcases follows_block hLaid hInstr (hLegal i hMember) (hLeads i hMember) (hAvoids.1 i hInstr)
      hBeside with ⟨block, hBlock, hFollows⟩
    rw [hStep] at hFollows
    rcases hFollows with @⟨_, start₁, group, _, t₁, hMeets₁, hGroup, hRows, hBeside₁⟩
    have hAfter := soiledAt_eq hInstr hBlock dirty
    have hLater : Avoids is bs (soiled i block dirty) (linesOf visits) := hAfter ▸ hAvoids.2
    rcases ih hMeets₁ hBeside₁ hLater with ⟨stop, others, t', hMeets', hRest, hTracks, hBeside'⟩
    have hHead : group.head? = some ((startOf bs n : Int), t) := by
      cases hGroup with
      | here =>
        have hNone : block.length = 0 := by simpa [rows] using (congrArg List.length hRows).symm
        exact absurd (length_eq_zero_iff.mp hNone) (hLaid.expansion hInstr hBlock).nonempty
      | next _ _ _ => rfl
    refine ⟨stop, group ++ others, t', hMeets', hGroup.append hRest,
      .cons hBlock hBeside hHead hRows (hAfter ▸ hTracks), ?_⟩
    have hAll : soiledBy is bs dirty (linesOf (((n : Int), s) :: visits)) =
        soiledBy is bs (soiled i block dirty) (linesOf visits) := by
      rw [← hAfter]
      rfl
    rw [hAll]
    exact hBeside'

-- The registers that are set behind all blocks, where a run gets there.
def marks (bs : List (List Instr)) : Except Fault Unit → List Reg
  | .ok _ => (tail bs).flatMap Instr.writes
  | .error _ => []

theorem end_follows (hLaid : Laid is bs code) (hBeside : Beside sub app dirty s t) :
    ∃ visits t', Run (program sub code.toArray) (startOf bs is.length) t visits (.ok ()) t' ∧
      Beside sub app (marks bs (.ok ()) ++ dirty) s t' := by
  have hStart : startOf bs is.length = (bs.flatten.map (relocated bs)).length := by
    rw [← hLaid.length_eq, startOf_length, length_map]
  have hCode := hLaid.code
  unfold marks
  by_cases hLanding : bs.flatten.any (leaves bs.length)
  · have hTail : tail bs = [landing] := if_pos hLanding
    rw [hTail] at hCode ⊢
    rcases hBeside.serves with ⟨_, regs, _, hServes, _⟩
    rcases write_path hCode (by decide) (by decide) hBeside hServes with ⟨t', hPath, hBeside', _⟩
    rw [hStart]
    refine ⟨_, t', hPath.run (.done (program_none ?_)), hBeside'⟩
    rw [hCode]
    simp
  · have hTail : tail bs = [] := if_neg hLanding
    rw [hTail] at hCode ⊢
    refine ⟨[], t, .done (program_none ?_), hBeside⟩
    rw [hStart, hCode, append_nil]

/-
  A subroutine and its blocks end in the same way. The nodes then differ in no other registers than
  those that blocks of the visited lines set for themselves and those that are set behind all
  blocks.
-/
theorem run_follows (hLaid : Laid is bs code) (hLegal : ∀ i ∈ is, i.Legal .vanilla)
    (hLeads : ∀ i ∈ is, Leads is.length i) (hRun : Run (program sub is.toArray) 0 s visits r s')
    (hBeside : Beside sub app [] s t) (hAvoids : Avoids is bs [] (linesOf visits)) :
    ∃ visits' r' t', Run (program sub code.toArray) 0 t visits' r' t' ∧ SameEnd r r' ∧
      Beside sub app (marks bs r ++ (linesOf visits).flatMap (scratchAt is bs)) s' t' := by
  have hStart : Meets bs is.length 0 0 := ⟨0, Nat.zero_le _, rfl, rfl⟩
  rcases hRun.parts with
    ⟨line, hPath, hEnd, rfl⟩ | ⟨before, line, s₁, x, e, rfl, hPath, hAt, hFail, rfl⟩
  · rcases path_follows hLaid hLegal hLeads hPath hStart hBeside hAvoids with
      ⟨stop, visits', t₁, ⟨n, hBound, rfl, rfl⟩, hPath', _, hBeside₁⟩
    have hLast : n = is.length := by
      refine Nat.le_antisymm hBound (Nat.le_of_not_lt fun hInside => ?_)
      have hSome : program sub is.toArray (n : Int) ≠ none := by
        rw [program, if_neg (by simpa using hInside)]
        exact Option.some_ne_none _
      exact hSome hEnd
    subst hLast
    rcases end_follows hLaid hBeside₁ with ⟨visits'', t', hRun', hBeside'⟩
    refine ⟨_, _, t', hPath'.run hRun', rfl, hBeside'.mono ?_⟩
    refine append_subset.mpr ⟨subset_append_left _ _, fun q hq => ?_⟩
    have hScratch := soiledBy_subset (linesOf visits) hq
    rw [append_nil] at hScratch
    exact mem_append_right _ hScratch
  · have hLines : linesOf (before ++ [(line, s₁)]) = linesOf before ++ [line.toNat] := by
      simp [linesOf]
    rw [hLines] at hAvoids ⊢
    rcases avoids_append hAvoids with ⟨hBefore, hHere⟩
    rcases path_follows hLaid hLegal hLeads hPath hStart hBeside hBefore with
      ⟨stop, visits', t₁, ⟨n, hBound, rfl, rfl⟩, hPath', _, hBeside₁⟩
    rcases program_at hAt with ⟨i, hInstr, rfl⟩
    have hMember : i ∈ is := mem_of_getElem? hInstr
    rcases follows_block hLaid hInstr (hLegal i hMember) (hLeads i hMember) (hHere.1 i hInstr)
      hBeside₁ with ⟨block, hBlock, hFollows⟩
    rw [hFail] at hFollows
    rcases hFollows with _ | ⟨hRun', hCategory, hBeside'⟩
    refine ⟨_, .error _, _, hPath'.run hRun', .error hCategory, hBeside'.mono ?_⟩
    have hScratch : scratchAt is bs n = scratch i block := by simp [scratchAt, hInstr, hBlock]
    intro q hq
    rcases mem_append.mp hq with hq | hq
    · simp [hScratch, hq]
    · have hBefore := soiledBy_subset (linesOf before) hq
      rw [append_nil] at hBefore
      simp only [flatMap_append, mem_append]
      exact .inr (.inl hBefore)

end Runs

---- Preservation

open Node Machine

---- Code

/-
  Code for the instructions of a subroutine. No block is empty; what belongs to the core is kept at
  the start of its block, except that a branch leads to the start of a block; no gates of generic
  hardware are left; and only controlled gates set registers for themselves. A branch behind the
  last line has an instruction to lead to.
-/
structure Translates (is : List Instr) (bs : List (List Instr)) (code : List Instr) : Prop where
  whole : code = bs.flatten.map (relocated bs) ++ tail bs
  size : bs.length = is.length
  filled : ∀ block ∈ bs, block ≠ []
  kept : ∀ {n op operands line}, is[n]? = some (.op .core op operands line) →
      bs[n]? = some [.op .core op operands line] ∧
        code[startOf bs n]? = some (relocated bs (.op .core op operands line))
  landing : ∀ i ∈ is, leaves is.length i = true → code[startOf bs is.length]? = some landing
  gates : ∀ j ∈ code, family? j ≠ some .vanilla
  scratch : ∀ {n r}, r ∈ scratchAt is bs n →
      r.bank = .q ∧ ∃ op a b line, (op = .cnot ∨ op = .cphase) ∧
        is[n]? = some (.op .vanilla op [.reg a, .reg b] line)

theorem Expansion.core (hExpansion : Expansion (.op .core op os line) block) :
    block = [.op .core op os line] := by
  cases hExpansion with
  | kept => rfl
  | played hTouches _ => cases hTouches

theorem Expansion.family (hExpansion : Expansion i block) :
    ∀ j ∈ block, family? j ≠ some .vanilla := by
  have hPulses : ∀ {rs js}, Plays rs js → ∀ j ∈ js, family? j ≠ some .vanilla := by
    intro rs js hPlays j hj
    rcases hPlays.pulse hj with ⟨_, hPulse⟩
    rcases pulse?_cases hPulse with ⟨_, _, _, _, _, _, _, _, rfl⟩ | ⟨_, _, _, _, _, _, _, _, _, rfl⟩
    · exact fun hSame => by cases hSame
    · exact fun hSame => by cases hSame
  cases hExpansion with
  | kept | turned =>
    intro j hj
    rw [mem_singleton.mp hj]
    exact fun hSame => by cases hSame
  | played _ hPlays => exact hPulses hPlays
  | exchanged _ _ _ hPlays =>
    intro j hj
    rcases mem_cons.mp hj with rfl | hj
    · exact fun hSame => by cases hSame
    · exact hPulses hPlays j hj

theorem family?_relocated (bs : List (List Instr)) (i : Instr) :
    family? (relocated bs i) = family? i := by
  unfold relocated
  split
  · rfl
  · cases i <;> rfl

theorem Expansion.scratch (hExpansion : Expansion i block) (hScratch : r ∈ scratch i block) :
    r.bank = .q ∧ ∃ op a b line, (op = .cnot ∨ op = .cphase) ∧
      i = .op .vanilla op [.reg a, .reg b] line := by
  have hBank : ∀ e ∈ Reg.ofBank .q, e.bank = .q := by decide
  cases hExpansion with
  | kept => exact absurd hScratch (by simp [scratch_kept])
  | @turned op _ _ _ _ _ _ hGate _ =>
    cases op <;> first | cases hScratch | exact absurd hGate (by decide)
  | played _ hPlays => exact absurd hScratch (by simp [Mapping.scratch, hPlays.writes])
  | @exchanged op a b e js line hGate hQubit _ hPlays =>
    have hOwn : r = e := by
      have hMember := mem_of_mem_filter hScratch
      simpa [hPlays.writes, Instr.writes] using hMember
    exact ⟨hOwn ▸ hBank e hQubit, op, a, b, line, hGate, rfl⟩

-- A branch behind the last line is in its block.
theorem Expansion.mem_of_leaves (hExpansion : Expansion i block) (hLeaves : leaves size i = true) :
    i ∈ block := by
  cases hExpansion with
  | kept => exact mem_singleton_self _
  | @turned op _ _ _ _ _ _ hGate _ =>
    cases op <;> first | cases hLeaves | exact absurd hGate (by decide)
  | played hTouches _ => simp [leaves, (touches_of_eq_some hTouches).plain] at hLeaves
  | exchanged hGate _ _ _ => rcases hGate with rfl | rfl <;> cases hLeaves

section Code

theorem Laid.translates (hLaid : Laid is bs code) : Translates is bs code := by
  have hEach : ∀ block ∈ bs, ∃ i, Expansion i block := by
    intro block hBlock
    rcases mem_iff_getElem?.mp hBlock with ⟨n, hBlock⟩
    rcases List.getElem?_eq_some_iff.mp hBlock with ⟨hBound, _⟩
    exact ⟨_, hLaid.expansion (getElem?_eq_getElem (hLaid.length_eq ▸ hBound)) hBlock⟩
  constructor
  · exact hLaid.code
  · exact hLaid.length_eq
  · intro block hBlock
    rcases hEach block hBlock with ⟨i, hExpansion⟩
    exact hExpansion.nonempty
  · intro n op os line hAt
    rcases hLaid.split hAt with ⟨block, behind, rest, hBlock, hExpansion, hCode, hLength⟩
    cases hExpansion.core
    refine ⟨hBlock, ?_⟩
    rw [hCode, ← hLength, getElem?_append_right (Nat.le_refl _), Nat.sub_self]
    rfl
  · intro i hi hLeaves
    rcases mem_iff_getElem?.mp hi with ⟨n, hAt⟩
    rcases hLaid.split hAt with ⟨block, _, _, hBlock, hExpansion, _⟩
    have hMember : i ∈ bs.flatten :=
      mem_flatten.mpr ⟨block, mem_of_getElem? hBlock, hExpansion.mem_of_leaves hLeaves⟩
    have hTail : tail bs = [Mapping.landing] :=
      if_pos (any_eq_true.mpr ⟨i, hMember, hLaid.length_eq ▸ hLeaves⟩)
    have hStart : startOf bs is.length = (bs.flatten.map (relocated bs)).length := by
      rw [← hLaid.length_eq, startOf_length, length_map]
    rw [hLaid.code, hTail, hStart, getElem?_append_right (Nat.le_refl _), Nat.sub_self]
    rfl
  · intro j hj
    rw [hLaid.code] at hj
    rcases mem_append.mp hj with hj | hj
    · rcases mem_map.mp hj with ⟨j', hj', rfl⟩
      rcases mem_flatten.mp hj' with ⟨block, hBlock, hMember⟩
      rcases hEach block hBlock with ⟨i, hExpansion⟩
      rw [family?_relocated]
      exact hExpansion.family j' hMember
    · unfold tail at hj
      split at hj
      · rw [mem_singleton.mp hj]
        decide
      · exact absurd hj not_mem_nil
  · intro n r hr
    unfold scratchAt at hr
    split at hr
    · rename_i i block hAt hBlock
      rcases (hLaid.expansion hAt hBlock).scratch hr with ⟨hBank, op, a, b, line, hGate, rfl⟩
      exact ⟨hBank, op, a, b, line, hGate, hAt⟩
    · exact absurd hr not_mem_nil

end Code

---- Preservation

/-
  A mapped subroutine goes through the blocks for the lines that the subroutine goes through, in
  states beside, and ends in the same way, if no line reads a register that a block has set for
  itself before it is set again. The nodes differ in no other registers than those, and in the one
  that is set behind the blocks if there is a branch behind the last line. So it is on the node, if
  the node may run that many instructions.
-/
theorem toNv_preserves
    {o : Options}
    {p mapped : Subroutine}
    {known : Known}
    (hDebug : o.debug = false)
    (hLegal : ∀ i ∈ p.instrs, i.Legal .vanilla)
    (hLeads : ∀ i ∈ p.instrs, Leads p.instrs.length i)
    (hScales : ∀ i ∈ p.instrs, Scales o i)
    (hMapped : toNv o p = .ok (mapped, known))
    {s : Node}
    {sub : Nat}
    {app : Int}
    (hHosts : s.Hosts sub app) :
    Translates p.instrs (blocksOf o p) mapped.instrs ∧
    (∀ visits line t, Path (program sub p.instrs.toArray) 0 s visits line t →
      Avoids p.instrs (blocksOf o p) [] (linesOf visits) →
        ∃ stop visits' t', Meets (blocksOf o p) p.instrs.length line stop ∧
          Path (program sub mapped.instrs.toArray) 0 s visits' stop t' ∧
          Tracks sub app p.instrs (blocksOf o p) [] visits visits' ∧
          Beside sub app (soiledBy p.instrs (blocksOf o p) [] (linesOf visits)) t t') ∧
    ∀ visits r t, Run (program sub p.instrs.toArray) 0 s visits r t →
      Avoids p.instrs (blocksOf o p) [] (linesOf visits) →
        ∃ visits' r' t', Run (program sub mapped.instrs.toArray) 0 s visits' r' t' ∧ SameEnd r r' ∧
          Beside sub app (marks (blocksOf o p) r ++
              (linesOf visits).flatMap (scratchAt p.instrs (blocksOf o p))) t t' ∧
          ∀ limit, visits'.length ≤ limit →
            ∃ q left, effect (runFrom sub mapped.instrs.toArray limit 0) s =
              (q, withBudget left t') ∧ SameEnd r q := by
  have hLaid := laid_of_toNv hDebug hLegal hScales hMapped
  have hBeside : Beside sub app [] s s := .of_hosts hHosts
  refine ⟨hLaid.translates, ?_, ?_⟩
  · intro visits line t hPath hAvoids
    exact path_follows hLaid hLegal hLeads hPath ⟨0, Nat.zero_le _, rfl, rfl⟩ hBeside hAvoids
  · intro visits r t hRun hAvoids
    rcases run_follows hLaid hLegal hLeads hRun hBeside hAvoids with
      ⟨visits', r', t', hRun', hEnd, hBeside'⟩
    refine ⟨visits', r', t', hRun', hEnd, hBeside', fun limit hLimit => ?_⟩
    rcases runFrom_of_run hRun' hLimit with ⟨q, left, hNode, hSame⟩
    exact ⟨q, left, hNode, Eq.trans hSame hEnd⟩

def hostNode : Node :=
  { Node.fresh "node" 0 .nv false false with
    registers := [(0, [])]
    subroutines := [(0, some 0)] }

-- Two carbons, a measurement, and a branch behind the last line.
def carbons : Subroutine := ⟨none, some 0, [], [
  core .set [.reg ⟨.q, 0⟩, .imm 1],
  core .set [.reg ⟨.q, 1⟩, .imm 2],
  .op .vanilla .cnot [.reg ⟨.q, 0⟩, .reg ⟨.q, 1⟩] none,
  core .meas [.reg ⟨.q, 0⟩, .reg ⟨.m, 0⟩],
  core .bez [.reg ⟨.m, 0⟩, .imm 6],
  core .set [.reg ⟨.r, 1⟩, .imm 5]]⟩

theorem toNv_preserves_carbons :
    (∀ i ∈ carbons.instrs, i.Legal .vanilla) ∧
      (∀ i ∈ carbons.instrs, Leads carbons.instrs.length i) ∧
      (∀ i ∈ carbons.instrs, Scales ⟨false, false⟩ i) ∧ hostNode.Hosts 0 0 ∧
      ∃ mapped known visits t visits' r' t', toNv ⟨false, false⟩ carbons = .ok (mapped, known) ∧
        Run (program 0 carbons.instrs.toArray) 0 hostNode visits (.ok ()) t ∧
        linesOf visits = [0, 1, 2, 3, 4] ∧
        Avoids carbons.instrs (blocksOf ⟨false, false⟩ carbons) [] (linesOf visits) ∧
        Run (program 0 mapped.instrs.toArray) 0 hostNode visits' r' t' ∧ SameEnd (.ok ()) r' ∧
        Beside 0 0 [⟨.c, 15⟩, ⟨.q, 2⟩] t t' := by
  have hLegal : ∀ i ∈ carbons.instrs, i.Legal .vanilla := by decide
  have hLeads : ∀ i ∈ carbons.instrs, Leads carbons.instrs.length i := by decide
  have hScales : ∀ i ∈ carbons.instrs, Scales ⟨false, false⟩ i := by simp [carbons, Scales]
  have hHosts : hostNode.Hosts 0 0 := ⟨rfl, rfl, rfl⟩
  have hRun : ∃ visits t, Run (program 0 carbons.instrs.toArray) 0 hostNode visits (.ok ()) t ∧
      linesOf visits = [0, 1, 2, 3, 4] :=
    ⟨_, _, .next rfl rfl (.next rfl rfl (.next rfl rfl (.next rfl rfl (.next rfl rfl
      (.done rfl))))), rfl⟩
  have hAvoids : Avoids carbons.instrs (blocksOf ⟨false, false⟩ carbons) [] [0, 1, 2, 3, 4] := by
    decide +kernel
  have hMarks : marks (blocksOf ⟨false, false⟩ carbons) (.ok ()) ++
      [0, 1, 2, 3, 4].flatMap (scratchAt carbons.instrs (blocksOf ⟨false, false⟩ carbons)) =
        [⟨.c, 15⟩, ⟨.q, 2⟩] := by
    decide +kernel
  rcases hRun with ⟨visits, t, hRun, hLines⟩
  rcases Checked.of_isOk (x := toNv ⟨false, false⟩ carbons) (by decide +kernel) with ⟨made, hMapped⟩
  rcases (toNv_preserves rfl hLegal hLeads hScales hMapped hHosts).2.2 visits (.ok ()) t hRun
    (hLines ▸ hAvoids) with ⟨visits', r', t', hRun', hEnd, hBeside, _⟩
  rw [hLines, hMarks] at hBeside
  exact ⟨hLegal, hLeads, hScales, hHosts, made.1, made.2, visits, t, visits', r', t', hMapped,
    hRun, hLines, hLines ▸ hAvoids, hRun', hEnd, hBeside⟩

-- A branch behind the last line that is not taken.
def passing : Subroutine := ⟨none, some 0, [], [
  core .set [.reg ⟨.r, 0⟩, .imm 1],
  core .bez [.reg ⟨.r, 0⟩, .imm 3],
  core .set [.reg ⟨.r, 1⟩, .imm 5]]⟩

-- The register behind the blocks is also set by a run that no branch takes there, but the last
-- line.
theorem marked_without_jump :
    ∃ known visits t visits' t', toNv ⟨false, false⟩ passing =
        .ok ({ passing with instrs := passing.instrs ++ [landing] }, known) ∧
      Run (program 0 passing.instrs.toArray) 0 hostNode visits (.ok ()) t ∧
      linesOf visits = [0, 1, 2] ∧
      Run (program 0 (passing.instrs ++ [landing]).toArray) 0 hostNode visits' (.ok ()) t' ∧
      (Table.get? 0 t.registers).map (fun regs => regs.value ⟨.c, 15⟩) = some none ∧
      (Table.get? 0 t'.registers).map (fun regs => regs.value ⟨.c, 15⟩) = some (some 1337) :=
  ⟨_, _, _, _, _, rfl, .next rfl rfl (.next rfl rfl (.next rfl rfl (.done rfl))), rfl,
    .next rfl rfl (.next rfl rfl (.next rfl rfl (.next rfl rfl (.done rfl)))), rfl, rfl⟩

end QuantumNode.Mapping

namespace QuantumNode
variable {stop v : Int} {known : Known} {visits : List (Int × Node)} {os : List Operand}
  {op : Op} {o : Options}

variable {i : Instr} {line next : Int} {k : Known} {n : Nat}
namespace Node
open Linked

def identical : Pairing := ⟨Eq, Eq⟩

section Steps
variable {sub : Nat} {app : Int} {held : List (Reg × Int)} {s t : Node}

theorem identical_sound : identical.Sound sub app (.entire held) ofRegister ofRegister := by
  constructor
  · rintro o _ ⟨⟩
    cases o with
    | reg r => exact sim_getReg trivial
    | _ => exact SimTo.throw rfl
  · rintro i j ⟨⟩
    cases i with
    | reg r => exact sim_evalIndex (.reg trivial)
    | _ => exact SimTo.pure rfl

-- An instruction keeps the values in registers that it does not write to.
theorem sim_identical (hFits : Slot.fitAll? op.slots os = some os)
    (hFree : ∀ r ∈ Draft.outputs op os, ∀ p ∈ held, p.1 ≠ r) (line : Int) :
    Sim (Linked sub app (.entire held)) Eq
      (execute sub line (.op family op os host)) (execute sub line (.op family op os host)) := by
  have hMatch : MatchFrom identical (Draft.target? op) 0 op.slots os os :=
    Mapping.matchFrom_of_fits (fun _ => rfl) (fun _ => rfl) hFits _ _
  cases hForks : forks? op os with
  | some fork =>
    have hCompared : Forall₂ identical.reads fork.1 fork.1 := forall₂_same.mpr fun _ _ => rfl
    simp only [execute, hForks]
    exact (identical_sound.sim_takenWith hCompared op).answer fun _ _ hSame => by rw [hSame]
  | none =>
    have hPerform : Sim (Linked sub app (.entire held)) Eq
        (perform sub family op os) (perform sub family op os) := by
      by_cases hReturn : op = .retReg
      · subst hReturn
        rcases Slot.fitAll?_reg hFits with ⟨r, _, rfl, hRest⟩
        cases Slot.fitAll?_nil hRest
        exact sim_performReturn _ _ _ _ trivial
      · exact (identical_sound.sim_performWith family family hMatch hForks hReturn hFree).relax
          fun s t hLinked => hLinked.mono ⟨fun _ _ => .inl trivial, fun _ hr => hr, fun _ hp => hp⟩
    simp only [execute, hForks]
    exact hPerform.answer fun _ _ hSame => by rw [hSame]

-- Behind a step the node still runs the subroutine, and the registers that the instruction does not
-- write to hold what they held.
theorem step_keeps (hLegal : i.Legal .vanilla) (hHosts : s.Hosts sub app)
    (hStep : effect (step sub line i) s = (.ok next, t)) :
    (∃ output, effect (execute sub line i) s = (.ok (next, output), t)) ∧ t.Hosts sub app ∧
      ∀ r v, r ∉ i.writes → s.registerOf app r = some v → t.registerOf app r = some v := by
  cases i with
  | note words => exact hLegal.elim
  | op family op os host =>
    have hKept : ∀ held : List (Reg × Int), (∀ p ∈ held, s.registerOf app p.1 = some p.2) →
        (∀ r ∈ Draft.outputs op os, ∀ p ∈ held, p.1 ≠ r) → ∀ out t',
          effect (execute sub line (.op family op os host)) s = (.ok out, t') →
            t'.Hosts sub app ∧ ∀ p ∈ held, t'.registerOf app p.1 = some p.2 := by
      intro held hHeld hFree out t' hExecute
      have hSim : Sim (Linked sub app (.entire held)) Eq (execute sub line (.op family op os host))
          (execute sub line (.op family op os host)) :=
        sim_identical hLegal.2.1 hFree line
      have hAlike := hSim s s (hHosts.holding (.entire _) hHeld)
      rw [hExecute] at hAlike
      exact hAlike.2.holds
    rcases of_binds_ok hStep with ⟨⟨_, output⟩, t', hExecute, _, _, hRecord, ⟨⟩⟩
    rw [effect_record (hKept [] (by simp) (by simp) _ _ hExecute).1.off] at hRecord
    cases hRecord
    refine ⟨⟨output, hExecute⟩, (hKept [] (by simp) (by simp) _ _ hExecute).1, ?_⟩
    intro r v hOther hValue
    rw [Draft.writes_eq] at hOther
    refine (hKept [(r, v)] (by simpa using hValue) ?_ _ _ hExecute).2 _ mem_cons_self
    rintro _ hr' p hp rfl
    cases mem_singleton.mp hp
    exact hOther hr'

end Steps

end Node

namespace Known
variable {r : Reg}

theorem value?_observe_self (hAssign : assign? i = some (r, v)) :
    (k.observe i).value? r = some v := by
  simp [value?, observe, hAssign]

theorem value?_observe_of_ne (hOther : ∀ v, assign? i ≠ some (r, v)) :
    (k.observe i).value? r = k.value? r := by
  unfold value? observe
  cases hAssign : assign? i with
  | none => rfl
  | some p =>
    rcases p with ⟨_, v⟩
    refine Table.get?_put_of_ne ?_ v k.values
    rintro rfl
    exact hOther v hAssign

theorem assign?_eq_some (hAssign : assign? i = some (r, v)) :
    ∃ family rest host, i = .op family .set (.reg r :: .imm v :: rest) host := by
  unfold assign? at hAssign
  split at hAssign
  · split at hAssign
    · cases hAssign
      exact ⟨_, _, _, rfl⟩
    · cases hAssign
  · cases hAssign

end Known

namespace Mapping
open Node Machine

def knownAt (is : List Instr) (n : Nat) : Known := (is.take n).foldl Known.observe .empty

/-
  A register whose records are right wherever a line is entered from: other instructions than
  recorded ones write to it only where nothing is recorded of it, and a branch leads only to lines
  above which nothing or the same is recorded of it.
-/
structure Steady (is : List Instr) (r : Reg) : Prop where
  written : ∀ n, n < is.length → ∀ i ∈ is[n]?, r ∈ i.writes →
      (Known.assign? i).map Prod.fst = some r ∨ (knownAt is (n + 1)).value? r = none
  entered : ∀ n, n < is.length → ∀ i ∈ is[n]?, ∀ goal ∈ target? i,
      (knownAt is goal.2.toNat).value? r = none ∨
        (knownAt is goal.2.toNat).value? r = (knownAt is n).value? r

-- A register holds the value that is recorded of it, if there is one.
def Right (app : Int) (r : Reg) (k : Known) (s : Node) : Prop :=
  ∀ v, k.value? r = some v → s.registerOf app r = some v

section Paths
variable {is : List Instr} {r : Reg}

theorem knownAt_succ (hAt : is[n]? = some i) : knownAt is (n + 1) = (knownAt is n).observe i := by
  simp [knownAt, take_add_one, hAt]

variable {sub : Nat} {app : Int} {s t : Node}

-- A subroutine goes on at the next line, or where a branch leads, which writes to no register.
theorem next_line (hLegal : i.Legal .vanilla) (hLeads : Leads is.length i)
    (hExecute : effect (execute sub n i) s = (.ok (next, output), t)) :
    ∃ m : Nat, next = m ∧
      (m = n + 1 ∨ i.writes = [] ∧ ∃ place, target? i = some (place, (m : Int))) := by
  cases i with
  | note words => exact hLegal.elim
  | op family op os host =>
    rcases execute_next hExecute with hNext | ⟨⟨_, _⟩, hFork, hNext⟩
    · exact ⟨n + 1, hNext, .inl rfl⟩
    · rcases hLeads _ hFork with ⟨m, _, ⟨⟩⟩
      refine ⟨m, hNext, .inr ⟨?_, ?_⟩⟩
      · rw [Draft.writes_eq, outputs_branch hFork]
      · unfold forks? at hFork
        split at hFork <;> cases hFork <;> exact ⟨_, rfl⟩

-- One step keeps records right, if what it writes is recorded.
theorem right_step (hLegal : i.Legal .vanilla) (hHosts : s.Hosts sub app) (hRight : Right app r k s)
    (hWritten :
      r ∈ i.writes → (Known.assign? i).map Prod.fst = some r ∨ (k.observe i).value? r = none)
    (hStep : effect (step sub line i) s = (.ok next, t)) : Right app r (k.observe i) t := by
  rcases step_keeps hLegal hHosts hStep with ⟨⟨_, hExecute⟩, _, hKept⟩
  intro v hValue
  by_cases hAssign : ∃ w, Known.assign? i = some (r, w)
  · rcases hAssign with ⟨w, hAssign⟩
    rw [Known.value?_observe_self hAssign] at hValue
    cases hValue
    rcases Known.assign?_eq_some hAssign with ⟨_, _, _, rfl⟩
    -- A set has two operands.
    rcases Slot.fitAll?_cons hLegal.2.1 with ⟨_, _, ⟨⟩, _, hRest⟩
    rcases Slot.fitAll?_cons hRest with ⟨_, _, ⟨⟩, _, hNone⟩
    cases Slot.fitAll?_nil hNone
    exact set_holds hHosts hExecute
  · have hOther : ∀ w, Known.assign? i ≠ some (r, w) := fun w hw => hAssign ⟨w, hw⟩
    have hUnwritten : r ∉ i.writes := by
      intro hWrites
      rcases hWritten hWrites with hRecorded | hNone
      · rcases Option.map_eq_some_iff.mp hRecorded with ⟨⟨_, w⟩, hw, rfl⟩
        exact hOther w hw
      · rw [hNone] at hValue
        cases hValue
    rw [Known.value?_observe_of_ne hOther] at hValue
    exact hKept r v hUnwritten (hRight v hValue)

def passed (is : List Instr) (visits : List (Int × Node)) : List Instr :=
  (linesOf visits).filterMap fun n => is[n]?

-- On every path, a register that only recorded instructions have written to holds what the last one
-- of them has set it to.
theorem right_passed (hLegal : ∀ i ∈ is, i.Legal .vanilla) (hLeads : ∀ i ∈ is, Leads is.length i)
    (hPath : Path (program sub is.toArray) line s visits stop t)
    (hWritten : ∀ i ∈ passed is visits, r ∈ i.writes → (Known.assign? i).map Prod.fst = some r)
    (hLine : line = n) (hHosts : s.Hosts sub app) (hRight : Right app r k s) :
    Right app r ((passed is visits).foldl Known.observe k) t := by
  induction hPath generalizing n k with
  | here => exact hRight
  | @next line next _ s t u x visits hAt hStep _ ih =>
    subst hLine
    rcases program_at hAt with ⟨i, hInstr, rfl⟩
    have hMember := mem_of_getElem? hInstr
    have hPassed : passed is (((n : Int), s) :: visits) = i :: passed is visits := by
      simp [passed, linesOf, hInstr]
    rw [hPassed] at hWritten ⊢
    have hHere : Right app r (k.observe i) t := right_step (hLegal i hMember) hHosts hRight
        (fun hWrites => .inl (hWritten i mem_cons_self hWrites)) hStep
    rcases step_keeps (hLegal i hMember) hHosts hStep with ⟨⟨_, hExecute⟩, hHosts', _⟩
    rcases next_line (hLegal i hMember) (hLeads i hMember) hExecute with ⟨m, hNext, _⟩
    exact ih (fun j hj => hWritten j (mem_cons_of_mem _ hj)) hNext hHosts' hHere

-- Records of a steady register stay right from line to line, whichever line is entered.
theorem right_next (hLegal : i.Legal .vanilla) (hLeads : Leads is.length i) (hSteady : Steady is r)
    (hAt : is[n]? = some i) (hHosts : s.Hosts sub app) (hRight : Right app r (knownAt is n) s)
    (hStep : effect (step sub n i) s = (.ok next, t)) :
    ∃ m : Nat, next = m ∧ t.Hosts sub app ∧ Right app r (knownAt is m) t := by
  have hBound : n < is.length := (List.getElem?_eq_some_iff.mp hAt).1
  have hBehind : Right app r (knownAt is (n + 1)) t := by
    rw [knownAt_succ hAt]
    refine right_step hLegal hHosts hRight ?_ hStep
    rw [← knownAt_succ hAt]
    exact hSteady.written n hBound i hAt
  rcases step_keeps hLegal hHosts hStep with ⟨⟨output, hExecute⟩, hHosts', hKept⟩
  rcases next_line hLegal hLeads hExecute with ⟨m, hNext, rfl | ⟨hWrites, place, hGoal⟩⟩
  · exact ⟨n + 1, hNext, hHosts', hBehind⟩
  · refine ⟨m, hNext, hHosts', fun v hValue => ?_⟩
    rcases hSteady.entered n hBound _ hAt _ hGoal with hNone | hSame
    · rw [Int.toNat_natCast, hValue] at hNone
      cases hNone
    · rw [Int.toNat_natCast, hValue] at hSame
      exact hKept r v (hWrites ▸ not_mem_nil) (hRight v hSame.symm)

theorem right_path (hLegal : ∀ i ∈ is, i.Legal .vanilla) (hLeads : ∀ i ∈ is, Leads is.length i)
    (hSteady : Steady is r) (hPath : Path (program sub is.toArray) line s visits stop t)
    (hLine : line = n) (hHosts : s.Hosts sub app) (hRight : Right app r (knownAt is n) s) :
    ∃ m : Nat, stop = m ∧ t.Hosts sub app ∧ Right app r (knownAt is m) t := by
  induction hPath generalizing n with
  | here => exact ⟨n, hLine, hHosts, hRight⟩
  | next hAt hStep _ ih =>
    subst hLine
    rcases program_at hAt with ⟨i, hInstr, rfl⟩
    have hMember := mem_of_getElem? hInstr
    rcases right_next (hLegal i hMember) (hLeads i hMember) hSteady hInstr hHosts hRight hStep
      with ⟨m, hNext, hHosts', hRight'⟩
    exact ih hNext hHosts' hRight'

end Paths

---- Expansions

theorem expand_of_blocks {is : List Instr} {bs : List (List Instr)}
    (hBlocks : blocks o k is = .ok (bs, known)) (hAt : is[n]? = some i) :
    ∃ block, bs[n]? = some block ∧
      expand o ((is.take (n + 1)).foldl Known.observe k) i = .ok block := by
  induction is generalizing k bs n with
  | nil => cases hAt
  | cons j rest ih =>
    rcases blocks_cons hBlocks with ⟨block, _, hBlock, hRest, rfl⟩
    cases n with
    | zero =>
      cases hAt
      exact ⟨block, rfl, hBlock⟩
    | succ n => exact ih hRest hAt

theorem blocksOf_of_toNv (hMapped : toNv o p = .ok (mapped, known)) :
    ∃ known', blocks o .empty p.instrs = .ok (blocksOf o p, known') := by
  rcases Checked.bind_ok hMapped with ⟨built, hBlocks, _⟩
  exact ⟨built.2, by simp [blocksOf, hBlocks]⟩

/-
  The block for a gate on two qubits is chosen by the values recorded of its registers above it. If
  the registers are steady, they hold exactly these values on every path to the gate. Steady or not,
  a register that only recorded instructions have written to on a path holds what the last one of
  them on that path has set it to, so the record is right there if the last one of them above the
  gate sets it to the same.
-/
theorem toNv_values_held
    {o : Options}
    {p mapped : Subroutine}
    {known : Known}
    (hLegal : ∀ i ∈ p.instrs, i.Legal .vanilla)
    (hLeads : ∀ i ∈ p.instrs, Leads p.instrs.length i)
    (hMapped : toNv o p = .ok (mapped, known))
    {n : Nat}
    {op : Op}
    {a b : Reg}
    {host : Option HostLine}
    (hGate : p.instrs[n]? = some (.op .vanilla op [.reg a, .reg b] host))
    {x y : Int}
    (hFirst : (knownAt p.instrs n).value? a = some x)
    (hSecond : (knownAt p.instrs n).value? b = some y) :
    (∃ block k, (blocksOf o p)[n]? = some block ∧ twoQubit o k op a b host = .ok block ∧
      k.value? a = some x ∧ k.value? b = some y) ∧
    ∀ {s : Node} {sub : Nat} {app : Int}, s.Hosts sub app →
      ∀ visits t, Path (program sub p.instrs.toArray) 0 s visits n t →
        (Steady p.instrs a → t.registerOf app a = some x) ∧
        (Steady p.instrs b → t.registerOf app b = some y) ∧
        ∀ r, (∀ i ∈ passed p.instrs visits, r ∈ i.writes →
            (Known.assign? i).map Prod.fst = some r) →
          Right app r ((passed p.instrs visits).foldl Known.observe .empty) t := by
  constructor
  · rcases blocksOf_of_toNv hMapped with ⟨_, hBlocks⟩
    rcases expand_of_blocks hBlocks hGate with ⟨block, hBlock, hExpand⟩
    have hKnown : (p.instrs.take (n + 1)).foldl Known.observe .empty =
        (knownAt p.instrs n).observe (.op .vanilla op [.reg a, .reg b] host) :=
      knownAt_succ hGate
    have hNothing : ∀ r v, Known.assign? (.op .vanilla op [.reg a, .reg b] host) ≠ some (r, v) := by
      intro r v hAssign
      rcases Known.assign?_eq_some hAssign with ⟨_, _, _, ⟨⟩⟩
    refine ⟨block, _, hBlock, hExpand, ?_, ?_⟩
    · rw [hKnown, Known.value?_observe_of_ne (hNothing a)]
      exact hFirst
    · rw [hKnown, Known.value?_observe_of_ne (hNothing b)]
      exact hSecond
  · intro s sub app hHosts visits t hPath
    have hStart : ∀ r, Right app r .empty s := fun r w hw => by cases hw
    have hHeld : ∀ r v, Steady p.instrs r → (knownAt p.instrs n).value? r = some v →
        t.registerOf app r = some v := by
      intro r v hSteady hValue
      rcases right_path hLegal hLeads hSteady hPath rfl hHosts (hStart r) with ⟨m, hLine, _, hRight⟩
      have hSame : n = m := by exact_mod_cast hLine
      subst hSame
      exact hRight v hValue
    refine ⟨fun hSteady => hHeld a x hSteady hFirst, fun hSteady => hHeld b y hSteady hSecond, ?_⟩
    intro r hWritten
    exact right_passed hLegal hLeads hPath hWritten rfl hHosts (hStart r)

-- A gate that is repeated until a register is zero.
def repeated : Subroutine := ⟨none, some 0, [], [
  core .set [.reg ⟨.q, 0⟩, .imm 0],
  core .set [.reg ⟨.q, 1⟩, .imm 1],
  core .set [.reg ⟨.r, 0⟩, .imm 1],
  .op .vanilla .cnot [.reg ⟨.q, 0⟩, .reg ⟨.q, 1⟩] none,
  core .bez [.reg ⟨.r, 0⟩, .imm 7],
  core .set [.reg ⟨.r, 0⟩, .imm 0],
  core .jmp [.imm 3]]⟩

theorem toNv_values_held_repeated :
    (∀ i ∈ repeated.instrs, i.Legal .vanilla) ∧
      (∀ i ∈ repeated.instrs, Leads repeated.instrs.length i) ∧
      Steady repeated.instrs ⟨.q, 0⟩ ∧ Steady repeated.instrs ⟨.q, 1⟩ ∧
      ∃ mapped known visits t, toNv ⟨false, false⟩ repeated = .ok (mapped, known) ∧
        Path (program 0 repeated.instrs.toArray) 0 hostNode visits 3 t ∧
        linesOf visits = [0, 1, 2, 3, 4, 5, 6] ∧
        t.registerOf 0 ⟨.q, 0⟩ = some 0 ∧ t.registerOf 0 ⟨.q, 1⟩ = some 1 := by
  have hLegal : ∀ i ∈ repeated.instrs, i.Legal .vanilla := by decide
  have hLeads : ∀ i ∈ repeated.instrs, Leads repeated.instrs.length i := by decide
  have hElectron : Steady repeated.instrs ⟨.q, 0⟩ := ⟨by decide, by decide⟩
  have hCarbon : Steady repeated.instrs ⟨.q, 1⟩ := ⟨by decide, by decide⟩
  have hHosts : hostNode.Hosts 0 0 := ⟨rfl, rfl, rfl⟩
  have hPath : ∃ visits t, Path (program 0 repeated.instrs.toArray) 0 hostNode visits 3 t ∧
      linesOf visits = [0, 1, 2, 3, 4, 5, 6] :=
    ⟨_, _, .next rfl rfl (.next rfl rfl (.next rfl rfl (.next rfl rfl (.next rfl rfl
      (.next rfl rfl (.next rfl rfl .here)))))), rfl⟩
  rcases hPath with ⟨visits, t, hPath, hLines⟩
  rcases Checked.of_isOk (x := toNv ⟨false, false⟩ repeated) (by decide +kernel) with ⟨made, hMapped⟩
  rcases (toNv_values_held hLegal hLeads hMapped (n := 3) rfl (x := 0) (y := 1) rfl rfl).2
    hHosts visits t hPath with ⟨hFirst, hSecond, _⟩
  exact ⟨hLegal, hLeads, hElectron, hCarbon, made.1, made.2, visits, t, hMapped, hPath, hLines,
    hFirst hElectron, hSecond hCarbon⟩

-- A qubit register that is computed.
def summed : Subroutine := ⟨none, some 0, [], [
  core .set [.reg ⟨.q, 0⟩, .imm 0],
  core .set [.reg ⟨.q, 1⟩, .imm 1],
  core .set [.reg ⟨.r, 0⟩, .imm 1],
  core .add [.reg ⟨.q, 0⟩, .reg ⟨.q, 1⟩, .reg ⟨.r, 0⟩],
  .op .vanilla .cnot [.reg ⟨.q, 0⟩, .reg ⟨.q, 1⟩] none]⟩

-- A qubit register that is set in a line that is jumped over.
def skipping : Subroutine := ⟨none, some 0, [], [
  core .set [.reg ⟨.q, 0⟩, .imm 0],
  core .set [.reg ⟨.q, 1⟩, .imm 1],
  core .jmp [.imm 4],
  core .set [.reg ⟨.q, 0⟩, .imm 2],
  .op .vanilla .cnot [.reg ⟨.q, 0⟩, .reg ⟨.q, 1⟩] none]⟩

-- Both subroutines are mapped, and the gate is reached with another address in its first register
-- than the recorded one: a sum is not recorded, and a record does not mind branches.
theorem values_missed :
    ((toNv ⟨false, false⟩ summed).isOk = true ∧ (knownAt summed.instrs 4).value? ⟨.q, 0⟩ = some 0 ∧
      ∃ visits t, Path (program 0 summed.instrs.toArray) 0 hostNode visits 4 t ∧
        t.registerOf 0 ⟨.q, 0⟩ = some 2) ∧
    (toNv ⟨false, false⟩ skipping).isOk = true ∧
      (knownAt skipping.instrs 4).value? ⟨.q, 0⟩ = some 2 ∧
      ∃ visits t, Path (program 0 skipping.instrs.toArray) 0 hostNode visits 4 t ∧
        t.registerOf 0 ⟨.q, 0⟩ = some 0 := by
  constructor
  · exact ⟨by decide +kernel, rfl, _, _, .next rfl rfl (.next rfl rfl (.next rfl rfl
      (.next rfl rfl .here))), rfl⟩
  · exact ⟨by decide +kernel, rfl, _, _, .next rfl rfl (.next rfl rfl (.next rfl rfl .here)), rfl⟩

end Mapping

end QuantumNode
