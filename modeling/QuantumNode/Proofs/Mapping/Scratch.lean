import Mathlib.Data.List.Chain
import Mathlib.Data.List.Induction
import QuantumNode.Proofs.Mapping.Preservation

/-
  Registers that blocks set for themselves, and what the lines of a subroutine read from them. Such
  a register is free on a path if whatever is read from it has been written since.
-/

open List

namespace QuantumNode.Mapping
open Plays Slot
variable {k : Known} {after before : List Nat} {m : Nat} {line : Option HostLine} {r : Reg}
open Node Machine
variable {i : Instr} {block : List Instr} {lines : List Nat} {n w : Nat} {o : Options}
section Lines
variable (is : List Instr) (bs : List (List Instr))

def WrittenAt (r : Reg) (n : Nat) : Prop := ∃ i ∈ is[n]?, r ∈ i.writes

def ReadAt (r : Reg) (n : Nat) : Prop := ∃ i ∈ is[n]?, r ∈ reads i

-- On the way from a block that sets a register for itself to a line that reads the register, some
-- line writes to it.
def Free (lines : List Nat) : Prop :=
  ∀ before n between m after r, lines = before ++ n :: (between ++ m :: after) →
      r ∈ scratchAt is bs n → ReadAt is r m → ∃ w ∈ between, WrittenAt is r w

-- What is read from a register was set on the way, and blocks that were passed since and take the
-- register for themselves stand behind the line that has set it.
def SetSince (lines : List Nat) : Prop :=
  ∀ before n between m after r, lines = before ++ n :: (between ++ m :: after) →
      r ∈ scratchAt is bs n → ReadAt is r m →
        ∃ first w since, before ++ n :: between = first ++ w :: since ∧ WrittenAt is r w ∧
          ∀ k ∈ since, r ∈ scratchAt is bs k → w < k

-- A register is read only in pieces of the text that start by setting it and that no branch enters
-- from elsewhere.
def Sheltered (r : Reg) : Prop :=
  ∀ m, ReadAt is r m → ∃ w e, w < m ∧ m ≤ e ∧ WrittenAt is r w ∧
      ∀ u, ∀ i ∈ is[u]?, ∀ goal ∈ target? i, (w : Int) < goal.2 → goal.2 ≤ e → w < u ∧ u ≤ e

def Goes (u v : Nat) : Prop := v = u + 1 ∨ ∃ i ∈ is[u]?, ∃ goal ∈ target? i, goal.2 = v

end Lines

-- The lines of a path, with the one that it leads to.
def through (visits : List (Int × Node)) (line : Int) : List Nat := linesOf visits ++ [line.toNat]

---- Scratch registers

theorem writes_swap : (Circuit.swap debug line e c).flatMap Instr.writes = [] := by
  cases debug <;> rfl

-- Circuits set no registers, but for the one of the electron.
theorem Placed.scratch {direct reverse : Option HostLine → Reg → Reg → List Instr} {a b : Reg}
    {x y : Int} (hPlaced : Placed o k direct reverse line a b x y block)
    (hDirect : ∀ e c, Plays [e, c] (direct line e c))
    (hReverse : ∀ e c, Plays [e, c] (reverse line e c)) (hScratch : r ∈ scratch i block) :
    k.unused? = some r := by
  have hMember := mem_of_mem_filter hScratch
  cases hPlaced with
  | first _ =>
    rw [(hDirect a b).writes] at hMember
    exact absurd hMember not_mem_nil
  | second _ =>
    rw [(hReverse b a).writes] at hMember
    exact absurd hMember not_mem_nil
  | @neither e _ _ hUnused =>
    have hOwn : r = e := by simpa [writes_swap, (hDirect e b).writes, Instr.writes] using hMember
    rw [hOwn]
    exact hUnused

-- What a block sets for itself is the first register that does not occur up to its line.
theorem expand_scratch (hLegal : i.Legal .vanilla) (hBlock : expand o k i = .ok block)
    (hScratch : r ∈ scratch i block) : k.unused? = some r := by
  have hPlayed : ∀ {rs : List Reg}, Plays rs block → k.unused? = some r := by
    intro rs hPlays
    have hMember := mem_of_mem_filter hScratch
    rw [hPlays.writes] at hMember
    exact absurd hMember not_mem_nil
  cases i with
  | note words => exact hLegal.elim
  | op family op os line =>
    rcases hLegal with ⟨hOps, hFits, _⟩
    rcases mem_vanilla_ops hOps with rfl | ⟨rfl, hGate⟩
    · cases hBlock
      rw [scratch_kept] at hScratch
      exact absurd hScratch not_mem_nil
    cases op with
    | x | y | z | h | s | k | t =>
      rcases fitAll?_reg hFits with ⟨q, _, rfl, hNone⟩
      cases fitAll?_nil hNone
      cases hBlock
      exact absurd (mem_of_mem_filter hScratch) not_mem_nil
    | rotX | rotY | rotZ =>
      rcases fitAll?_reg hFits with ⟨q, _, rfl, hAngle⟩
      rcases fitAll?_cons hAngle with ⟨n, _, rfl, _, hExponent⟩
      rcases fitAll?_cons hExponent with ⟨d, _, rfl, _, hNone⟩
      cases fitAll?_nil hNone
      rw [expand_rotation, rotation] at hBlock
      split at hBlock
      · rcases Checked.answer_ok hBlock with ⟨angle, _, rfl⟩
        exact absurd (mem_of_mem_filter hScratch) not_mem_nil
      · cases hBlock
        exact absurd (mem_of_mem_filter hScratch) not_mem_nil
    | mov =>
      rcases fitAll?_regs hFits with ⟨a, b, _, rfl, hNone⟩
      cases fitAll?_nil hNone
      rw [expand] at hBlock
      rcases twoQubit_mov hBlock with rfl | rfl
      · exact hPlayed (moveOut line a b)
      · exact hPlayed (moveIn line b a)
    | cnot | cphase =>
      rcases fitAll?_regs hFits with ⟨a, b, _, rfl, hNone⟩
      cases fitAll?_nil hNone
      rw [expand] at hBlock
      rcases twoQubit_known (by decide) hBlock with ⟨x, y, _, _, _, ⟨_, hPlaced⟩ | ⟨_, hPlaced⟩⟩
      · exact hPlaced.scratch (electronCnot line) (carbonCnot line) hScratch
      · exact hPlaced.scratch (electronCphase line) (electronCphase line) hScratch
    | _ => exact absurd hGate (by decide)

section Text
variable {known : Known} {is : List Instr} {bs : List (List Instr)}

theorem mem_writes (hWrites : r ∈ i.writes) : r ∈ i.operands.filterMap Operand.reg? := by
  cases i with
  | note words => exact absurd hWrites not_mem_nil
  | op family op os host =>
    rw [Draft.writes_eq] at hWrites
    exact mem_filterMap.mpr ⟨.reg r, Draft.mem_of_mem_outputs hWrites, rfl⟩

theorem mem_used_of_written (hWritten : WrittenAt is r w) (hAbove : w < n) :
    r ∈ (knownAt is n).used := by
  have hUsed : ∀ (k : Known) (js : List Instr), (js.foldl Known.observe k).used =
      k.used ++ js.flatMap fun j => j.operands.filterMap Operand.reg? := by
    intro k js
    induction js generalizing k with
    | nil => simp
    | cons j js ih => simp [ih, Known.observe]
  rcases hWritten with ⟨i, hAt, hWrites⟩
  have hMember : i ∈ is.take n := by
    refine mem_of_getElem? (i := w) ?_
    rw [getElem?_take_of_lt hAbove]
    exact hAt
  rw [knownAt, hUsed]
  exact mem_append_right _ (mem_flatMap.mpr ⟨i, hMember, mem_writes hWrites⟩)

theorem scratchAt_unwritten (hBlocks : blocks o .empty is = .ok (bs, known))
    (hLegal : ∀ i ∈ is, i.Legal .vanilla) (hScratch : r ∈ scratchAt is bs n) (hAbove : w ≤ n) :
    ¬ WrittenAt is r w := by
  intro hWritten
  unfold scratchAt at hScratch
  split at hScratch
  · rename_i i _ hAt hBlock
    rcases expand_of_blocks hBlocks hAt with ⟨_, hBlock', hExpand⟩
    cases hBlock.symm.trans hBlock'
    have hUnused : (knownAt is (n + 1)).unused? = some r :=
      expand_scratch (hLegal i (mem_of_getElem? hAt)) hExpand hScratch
    exact unused?_not_mem hUnused (mem_used_of_written hWritten (Nat.lt_succ_of_le hAbove))
  · exact absurd hScratch not_mem_nil

---- Free registers

theorem last_written (hWritten : ∃ w ∈ lines, WrittenAt is r w) :
    ∃ first w since, lines = first ++ w :: since ∧ WrittenAt is r w ∧
      ∀ k ∈ since, ¬ WrittenAt is r k := by
  induction lines with
  | nil =>
    rcases hWritten with ⟨w, hMember, _⟩
    exact absurd hMember not_mem_nil
  | cons n rest ih =>
    by_cases hLater : ∃ w ∈ rest, WrittenAt is r w
    · rcases ih hLater with ⟨first, w, since, rfl, hHere, hNone⟩
      exact ⟨n :: first, w, since, rfl, hHere, hNone⟩
    · have hNone : ∀ k ∈ rest, ¬ WrittenAt is r k := fun k hk hWrites => hLater ⟨k, hk, hWrites⟩
      rcases hWritten with ⟨w, hMember, hHere⟩
      rcases mem_cons.mp hMember with rfl | hMember
      · exact ⟨[], w, rest, rfl, hHere, hNone⟩
      · exact absurd hHere (hNone w hMember)

theorem setSince_of_free (hFree : Free is bs lines) : SetSince is bs lines := by
  intro before n between m after r hLines hScratch hRead
  rcases last_written (hFree before n between m after r hLines hScratch hRead) with
    ⟨first, w, since, rfl, hWritten, hNone⟩
  refine ⟨before ++ n :: first, w, since, by simp, hWritten, ?_⟩
  -- A block in between would need another line that writes to the register.
  intro k hk hScratchThere
  rcases append_of_mem hk with ⟨earlier, later, rfl⟩
  have hSplit : lines = (before ++ n :: (first ++ w :: earlier)) ++ k :: (later ++ m :: after) := by
    simp [hLines]
  rcases hFree _ k later m after r hSplit hScratchThere hRead with ⟨w', hw', hWritten'⟩
  exact absurd hWritten' (hNone w' (by simp [hw']))

section
variable (hBlocks : blocks o .empty is = .ok (bs, known))
include hBlocks
theorem free_of_setSince (hLegal : ∀ i ∈ is, i.Legal .vanilla) (hSet : SetSince is bs lines) :
    Free is bs lines := by
  intro before n between m after r hLines hScratch hRead
  rcases hSet before n between m after r hLines hScratch hRead with
    ⟨_, w, since, hSplit, hWritten, hBehind⟩
  have hBelow : n < w := by
    by_contra hAbove
    exact scratchAt_unwritten hBlocks hLegal hScratch (Nat.le_of_not_lt hAbove) hWritten
  rcases append_eq_append_iff.mp hSplit with ⟨rest, _, hRest⟩ | ⟨rest, _, hRest⟩
  · cases rest with
    | nil =>
      cases hRest
      exact absurd hBelow (Nat.lt_irrefl _)
    | cons head rest =>
      cases hRest
      exact ⟨w, by simp, hWritten⟩
  · -- The line stands before the block on the way, but behind it in the text.
    have hPassed : n = w ∨ n ∈ since := by
      cases rest with
      | nil =>
        cases hRest
        exact .inl rfl
      | cons head rest =>
        cases hRest
        exact .inr (by simp)
    rcases hPassed with rfl | hPassed
    · exact absurd hBelow (Nat.lt_irrefl _)
    · exact absurd hBelow (Nat.lt_asymm (hBehind n hPassed hScratch))

theorem mem_soiledBy (hSoiled : r ∈ soiledBy is bs [] lines) :
    ∃ before n between, lines = before ++ n :: between ∧ r ∈ scratchAt is bs n ∧
      ∀ w ∈ between, ¬ WrittenAt is r w := by
  induction lines using List.reverseRecOn with
  | nil => exact absurd hSoiled not_mem_nil
  | append_singleton lines m ih =>
    have hLast : r ∈ soiledAt is bs (soiledBy is bs [] lines) m := by simpa [soiledBy] using hSoiled
    have hEarlier : r ∈ soiledBy is bs [] lines → ¬ WrittenAt is r m →
        ∃ before n between, lines ++ [m] = before ++ n :: between ∧
          r ∈ scratchAt is bs n ∧ ∀ w ∈ between, ¬ WrittenAt is r w := by
      intro hDirty hHere
      rcases ih hDirty with ⟨before, n, between, rfl, hScratch, hNone⟩
      exact ⟨before, n, between ++ [m], by simp, hScratch,
        forall_mem_append.mpr ⟨hNone, forall_mem_singleton.mpr hHere⟩⟩
    cases hAt : is[m]? with
    | none =>
      refine hEarlier (by simpa [soiledAt, hAt] using hLast) ?_
      rintro ⟨i, hSome, _⟩
      rw [hAt] at hSome
      cases hSome
    | some i =>
      rcases expand_of_blocks hBlocks hAt with ⟨_, hBlock, _⟩
      rw [soiledAt_eq hAt hBlock] at hLast
      rcases mem_append.mp hLast with hScratch | hDirty
      · refine ⟨lines, m, [], rfl, ?_, by simp⟩
        simpa only [scratchAt, hAt, hBlock] using hScratch
      · rcases mem_filter.mp hDirty with ⟨hDirty, hOther⟩
        refine hEarlier hDirty ?_
        rintro ⟨j, hSame, hWrites⟩
        rw [hAt] at hSame
        cases hSame
        simp [hWrites] at hOther

theorem not_soiled_of_free (hFree : Free is bs (before ++ m :: after)) (hRead : ReadAt is r m) :
    r ∉ soiledBy is bs [] before := by
  intro hSoiled
  rcases mem_soiledBy hBlocks hSoiled with ⟨first, n, between, rfl, hScratch, hNone⟩
  rcases hFree first n between m after r (by simp) hScratch hRead with ⟨w, hw, hWritten⟩
  exact hNone w hw hWritten

end

theorem avoids_of_splits
    (hClean : ∀ before m after, lines = before ++ m :: after → ∀ r, ReadAt is r m →
        r ∉ soiledBy is bs dirty before) : Avoids is bs dirty lines := by
  induction lines generalizing dirty with
  | nil => trivial
  | cons n rest ih =>
    constructor
    · intro i hi r hr
      exact hClean [] n rest rfl r ⟨i, hi, hr⟩
    · refine ih fun before m after hRest r hRead => ?_
      exact hClean (n :: before) m after (by rw [hRest]; rfl) r hRead

theorem avoids_of_free (hBlocks : blocks o .empty is = .ok (bs, known))
    (hFree : Free is bs (lines ++ after)) : Avoids is bs [] lines := by
  refine avoids_of_splits fun before m rest hLines r hRead => ?_
  have hWhole : Free is bs (before ++ m :: (rest ++ after)) := by simpa [hLines] using hFree
  exact not_soiled_of_free hBlocks hWhole hRead

theorem path_chain {sub : Nat} {app : Int} {s t : Node} {line stop : Int}
    {visits : List (Int × Node)} (hLegal : ∀ i ∈ is, i.Legal .vanilla)
    (hLeads : ∀ i ∈ is, Leads is.length i)
    (hPath : Path (program sub is.toArray) line s visits stop t) (hLine : line = n)
    (hHosts : s.Hosts sub app) :
    (through visits stop).head? = some n ∧ List.IsChain (Goes is) (through visits stop) := by
  induction hPath generalizing n with
  | here => simp [through, linesOf, hLine]
  | @next line next stop s t u x visits hAt hStep _ ih =>
    subst hLine
    rcases program_at hAt with ⟨i, hInstr, rfl⟩
    have hMember := mem_of_getElem? hInstr
    rcases step_keeps (hLegal i hMember) hHosts hStep with ⟨⟨_, hExecute⟩, hHosts', _⟩
    rcases next_line (hLegal i hMember) (hLeads i hMember) hExecute with ⟨m, hNext, hWay⟩
    have hGoes : Goes is n m := by
      rcases hWay with hBehind | ⟨_, _, hGoal⟩
      · exact .inl hBehind
      · exact .inr ⟨i, hInstr, _, hGoal, rfl⟩
    rcases ih hNext hHosts' with ⟨hHead, hChain⟩
    have hThrough : through (((n : Int), s) :: visits) stop = n :: through visits stop := rfl
    rw [hThrough]
    refine ⟨rfl, isChain_cons.mpr ⟨fun v hv => ?_, hChain⟩⟩
    rw [hHead] at hv
    cases hv
    exact hGoes

-- A piece of the text that no branch enters from elsewhere is entered over the line above it, which
-- was the last line outside of the piece.
theorem entered_above {e : Nat}
    (hClosed :
      ∀ u, ∀ i ∈ is[u]?, ∀ goal ∈ target? i, (w : Int) < goal.2 → goal.2 ≤ e → w < u ∧ u ≤ e)
    (hHead : (before ++ [m]).head? = some 0) (hChain : List.IsChain (Goes is) (before ++ [m]))
    (hInside : w < m ∧ m ≤ e) :
    ∃ first since, before = first ++ w :: since ∧ ∀ k ∈ since, w < k := by
  induction before using List.reverseRecOn generalizing m with
  | nil =>
    have hFirst : m = 0 := by simpa using hHead
    omega
  | append_singleton before u ih =>
    rw [append_assoc] at hChain
    rcases isChain_append_cons_cons.mp hChain with ⟨hBefore, hStep, _⟩
    have hStart : (before ++ [u]).head? = some 0 := by cases before <;> simpa using hHead
    have hFrom : u = w ∨ w < u ∧ u ≤ e := by
      rcases hStep with rfl | ⟨i, hAt, goal, hGoal, hTarget⟩
      · omega
      · exact .inr (hClosed u i hAt goal hGoal (by omega) (by omega))
    rcases hFrom with rfl | hFrom
    · exact ⟨before, [], rfl, by simp⟩
    · rcases ih hStart hBefore hFrom with ⟨first, since, rfl, hBelow⟩
      exact ⟨first, since ++ [u], by simp,
        forall_mem_append.mpr ⟨hBelow, forall_mem_singleton.mpr hFrom.1⟩⟩

theorem setSince_of_sheltered (hHead : lines.head? = some 0) (hChain : List.IsChain (Goes is) lines)
    (hSheltered : ∀ n r, r ∈ scratchAt is bs n → Sheltered is r) : SetSince is bs lines := by
  rintro before n between m after r rfl hScratch hRead
  rcases hSheltered n r hScratch m hRead with ⟨w, e, hAbove, hInside, hWritten, hClosed⟩
  have hSplit :
      before ++ n :: (between ++ m :: after) = ((before ++ n :: between) ++ [m]) ++ after := by
    simp
  rw [hSplit] at hChain
  have hStart : ((before ++ n :: between) ++ [m]).head? = some 0 := by
    cases before <;> simpa using hHead
  rcases entered_above hClosed hStart hChain.left_of_append ⟨hAbove, hInside⟩ with
    ⟨first, since, hFirst, hBelow⟩
  exact ⟨first, w, since, hFirst, hWritten, fun k hk _ => hBelow k hk⟩

end Text

---- Mapped subroutines

/-
  On a path of a subroutine that is mapped, the registers that the blocks set for themselves are
  free exactly if what is read from them was set on the way, and by a line above all blocks that
  took the register for themselves since. They are free on every path if the subroutine reads them
  only in pieces of the text that set them at the start and that no branch enters from elsewhere.
  Where they are free, the mapped subroutine comes to the block for the same line, and whatever the
  line reads, it finds what it finds in the subroutine.
-/
theorem toNv_scratch_free
    {o : Options}
    {p mapped : Subroutine}
    {known : Known}
    (hLegal : ∀ i ∈ p.instrs, i.Legal .vanilla)
    (hLeads : ∀ i ∈ p.instrs, Leads p.instrs.length i)
    (hMapped : toNv o p = .ok (mapped, known))
    {s t : Node}
    {sub : Nat}
    {app line : Int}
    (hHosts : s.Hosts sub app)
    {visits : List (Int × Node)}
    (hPath : Path (program sub p.instrs.toArray) 0 s visits line t) :
    (Free p.instrs (blocksOf o p) (through visits line) ↔
      SetSince p.instrs (blocksOf o p) (through visits line)) ∧
    ((∀ n r, r ∈ scratchAt p.instrs (blocksOf o p) n → Sheltered p.instrs r) →
      Free p.instrs (blocksOf o p) (through visits line)) ∧
    (Free p.instrs (blocksOf o p) (through visits line) →
      o.debug = false → (∀ i ∈ p.instrs, Scales o i) →
        ∃ stop visits' t', Meets (blocksOf o p) p.instrs.length line stop ∧
          Path (program sub mapped.instrs.toArray) 0 s visits' stop t' ∧
          ∀ r, ReadAt p.instrs r line.toNat → t'.registerOf app r = t.registerOf app r) := by
  rcases blocksOf_of_toNv hMapped with ⟨_, hBlocks⟩
  have hFreeOfSet : SetSince p.instrs (blocksOf o p) (through visits line) →
      Free p.instrs (blocksOf o p) (through visits line) :=
    free_of_setSince hBlocks hLegal
  refine ⟨⟨setSince_of_free, hFreeOfSet⟩, ?_, ?_⟩
  · intro hSheltered
    rcases path_chain hLegal hLeads hPath rfl hHosts with ⟨hHead, hChain⟩
    exact hFreeOfSet (setSince_of_sheltered hHead hChain hSheltered)
  · intro hFree hDebug hScales
    have hLaid := laid_of_toNv hDebug hLegal hScales hMapped
    rcases path_follows hLaid hLegal hLeads hPath ⟨0, Nat.zero_le _, rfl, rfl⟩
      (.of_hosts hHosts) (avoids_of_free hBlocks hFree) with
      ⟨stop, visits', t', hMeets, hPath', _, hBeside⟩
    refine ⟨stop, visits', t', hMeets, hPath', fun r hRead => ?_⟩
    rcases hBeside.serves with ⟨regs, regs', hOwn, hOther, hAgree⟩
    rw [registerOf, registerOf, hOwn.registers, hOther.registers]
    exact hAgree r (not_soiled_of_free hBlocks hFree hRead)

-- A gate on two carbons that is repeated until a measurement of the electron gives zero.
def retried : Subroutine := ⟨none, some 0, [], [
  core .set [.reg ⟨.q, 1⟩, .imm 1],
  core .set [.reg ⟨.q, 2⟩, .imm 2],
  .op .vanilla .cnot [.reg ⟨.q, 1⟩, .reg ⟨.q, 2⟩] none,
  core .set [.reg ⟨.q, 0⟩, .imm 0],
  core .meas [.reg ⟨.q, 0⟩, .reg ⟨.m, 0⟩],
  core .bnz [.reg ⟨.m, 0⟩, .imm 2]]⟩

theorem toNv_scratch_free_retried :
    (∀ i ∈ retried.instrs, i.Legal .vanilla) ∧
      (∀ i ∈ retried.instrs, Leads retried.instrs.length i) ∧
      (∀ i ∈ retried.instrs, Scales ⟨false, false⟩ i) ∧
      scratchAt retried.instrs (blocksOf ⟨false, false⟩ retried) 2 = [⟨.q, 0⟩] ∧
      ∃ mapped known visits t stop visits' t', toNv ⟨false, false⟩ retried = .ok (mapped, known) ∧
        Path (program 0 retried.instrs.toArray) 0 { hostNode with outcomes := [1] } visits 4 t ∧
        through visits 4 = [0, 1, 2, 3, 4, 5, 2, 3, 4] ∧
        Free retried.instrs (blocksOf ⟨false, false⟩ retried) (through visits 4) ∧
        Path (program 0 mapped.instrs.toArray) 0 { hostNode with outcomes := [1] } visits' stop t' ∧
        t'.registerOf 0 ⟨.q, 0⟩ = t.registerOf 0 ⟨.q, 0⟩ := by
  have hLegal : ∀ i ∈ retried.instrs, i.Legal .vanilla := by decide
  have hLeads : ∀ i ∈ retried.instrs, Leads retried.instrs.length i := by decide
  have hScales : ∀ i ∈ retried.instrs, Scales ⟨false, false⟩ i := by simp [retried, Scales]
  have hHosts : { hostNode with outcomes := [1] }.Hosts 0 0 := ⟨rfl, rfl, rfl⟩
  have hScratch :
      ∀ n < 6, ∀ r ∈ scratchAt retried.instrs (blocksOf ⟨false, false⟩ retried) n, r = ⟨.q, 0⟩ := by
    decide +kernel
  have hOwn : scratchAt retried.instrs (blocksOf ⟨false, false⟩ retried) 2 = [⟨.q, 0⟩] := by
    decide +kernel
  have hPath : ∃ visits t,
      Path (program 0 retried.instrs.toArray) 0 { hostNode with outcomes := [1] } visits 4 t ∧
        through visits 4 = [0, 1, 2, 3, 4, 5, 2, 3, 4] :=
    ⟨_, _, .next rfl rfl (.next rfl rfl (.next rfl rfl (.next rfl rfl (.next rfl rfl
      (.next rfl rfl (.next rfl rfl (.next rfl rfl .here))))))), rfl⟩
  have hRead : ∀ m < 6, ∀ i ∈ retried.instrs[m]?, ⟨.q, 0⟩ ∈ reads i → m = 4 := by decide
  have hEntered : ∀ u < 6, ∀ i ∈ retried.instrs[u]?, ∀ goal ∈ target? i, goal.2 = 2 := by decide
  have hSheltered : Sheltered retried.instrs ⟨.q, 0⟩ := by
    rintro m ⟨i, hAt, hReads⟩
    have hBound : m < 6 := (List.getElem?_eq_some_iff.mp hAt).1
    cases hRead m hBound i hAt hReads
    refine ⟨3, 4, by decide, by decide, ⟨_, rfl, by decide⟩, ?_⟩
    intro u j hThere goal hGoal hAbove _
    have hInside : u < 6 := (List.getElem?_eq_some_iff.mp hThere).1
    rw [hEntered u hInside j hThere goal hGoal] at hAbove
    exact absurd hAbove (by decide)
  rcases hPath with ⟨visits, t, hPath, hLines⟩
  rcases Checked.of_isOk (x := toNv ⟨false, false⟩ retried) (by decide +kernel) with ⟨made, hMapped⟩
  rcases toNv_scratch_free hLegal hLeads hMapped hHosts hPath with ⟨_, hFree, hSame⟩
  have hHere : Free retried.instrs (blocksOf ⟨false, false⟩ retried) (through visits 4) := by
    refine hFree fun n r hr => ?_
    by_cases hBound : n < 6
    · rw [hScratch n hBound r hr]
      exact hSheltered
    · have hNone : retried.instrs[n]? = none := getElem?_eq_none (Nat.le_of_not_lt hBound)
      simp [scratchAt, hNone] at hr
  rcases hSame hHere rfl hScales with ⟨stop, visits', t', _, hPath', hEqual⟩
  exact ⟨hLegal, hLeads, hScales, hOwn, made.1, made.2, visits, t, stop, visits', t', hMapped,
    hPath, hLines, hHere, hPath', hEqual _ ⟨_, rfl, by decide⟩⟩

-- The text first goes to its end, where a register is set, and then back to a gate that does not
-- know of it.
def returning : Subroutine := ⟨none, some 0, [], [
  core .jmp [.imm 5],
  core .set [.reg ⟨.q, 1⟩, .imm 1],
  core .set [.reg ⟨.q, 2⟩, .imm 2],
  .op .vanilla .cnot [.reg ⟨.q, 1⟩, .reg ⟨.q, 2⟩] none,
  core .jmp [.imm 7],
  core .set [.reg ⟨.q, 0⟩, .imm 3],
  core .jmp [.imm 1],
  core .add [.reg ⟨.r, 0⟩, .reg ⟨.q, 0⟩, .reg ⟨.q, 0⟩]]⟩

-- A register is read that the text never sets.
def inheriting : Subroutine := ⟨none, some 0, [], [
  core .set [.reg ⟨.q, 1⟩, .imm 1],
  core .set [.reg ⟨.q, 2⟩, .imm 2],
  .op .vanilla .cnot [.reg ⟨.q, 1⟩, .reg ⟨.q, 2⟩] none,
  core .add [.reg ⟨.r, 0⟩, .reg ⟨.q, 0⟩, .reg ⟨.q, 0⟩]]⟩

def sumAfter (s : Node) (p : Subroutine) : Option Int :=
  (effect (runFrom 0 p.instrs.toArray 50 0) s).2.registerOf 0 ⟨.r, 0⟩

-- Both subroutines are mapped, and the last line adds other values than it does in the subroutine:
-- a register that is set behind a gate, or before the subroutine, is taken for unused.
theorem scratch_overwrites :
    (¬ Free returning.instrs (blocksOf ⟨false, false⟩ returning) [0, 5, 6, 1, 2, 3, 4, 7] ∧
      sumAfter hostNode returning = some 6 ∧
      (toNv ⟨false, false⟩ returning).toOption.map (sumAfter hostNode ·.1) = some (some 0)) ∧
    ¬ Free inheriting.instrs (blocksOf ⟨false, false⟩ inheriting) [0, 1, 2, 3] ∧
      sumAfter { hostNode with registers := [(0, [(⟨.q, 0⟩, some 3)])] } inheriting = some 6 ∧
      (toNv ⟨false, false⟩ inheriting).toOption.map
        (sumAfter { hostNode with registers := [(0, [(⟨.q, 0⟩, some 3)])] } ·.1) =
          some (some 0) := by
  refine ⟨⟨fun hFree => ?_, by decide +kernel, by decide +kernel⟩, fun hFree => ?_,
    by decide +kernel, by decide +kernel⟩
  · rcases hFree [0, 5, 6, 1, 2] 3 [4] 7 [] ⟨.q, 0⟩ rfl (by decide +kernel)
      ⟨_, rfl, by decide⟩ with ⟨w, hw, i, hAt, hWrites⟩
    rw [mem_singleton.mp hw] at hAt
    cases hAt
    exact absurd hWrites (by decide)
  · rcases hFree [0, 1] 2 [] 3 [] ⟨.q, 0⟩ rfl (by decide +kernel) ⟨_, rfl, by decide⟩ with
      ⟨w, hw, _⟩
    exact absurd hw not_mem_nil

end QuantumNode.Mapping
