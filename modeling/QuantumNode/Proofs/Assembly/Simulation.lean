import QuantumNode.Proofs.Assembly.Layout

/-
  A draft and its instructions run in step: each command of the draft goes together with the
  instructions that set its constants and its own. So assembly preserves meaning: an assembled draft
  ends in the same way as the draft, takes the same branches and leaves the same memory.
-/

open List

namespace QuantumNode.Assembly
open Draft Node Machine
variable {c : Command} {family : Family} {visits : List (Int × Node)} {held : List (Reg × Int)}
  {sets : List Instr} {line : Nat} {s t : Node}

variable {items rest : List Item}
variable {sub : Nat} {app : Int}

theorem sim_proceed (hCoded : Coded items items is)
    (hAt : CommandAt items is c rest line held sets os family) (hPlain : Plain items c)
    (hostLine : Option HostLine) :
    Sim (Linked sub app (view items held))
      (fun later out => ∃ n : Nat, out.1 = (n : Int) ∧ At items is later n)
      (proceed items sub c rest)
      (execute sub (line + sets.length : Nat) (.op family c.op os hostLine)) := by
  have hMatch := hAt.block.fits
  have hLater : At items is rest (line + sets.length + 1) := by
    have hBehind := hAt.later
    rwa [← hAt.block.length_sets] at hBehind
  cases hForks : forks? c.op c.inputs with
  | none =>
    have hStraight : forks? c.op (c.inputs.map (valued items)) = none := by
      rw [forks?_map, hForks]
      rfl
    simp only [proceed, hForks, execute, hMatch.forks_none hStraight]
    refine SimTo.bind_eq (sim_carryOut family hMatch hStraight hAt.block.free) fun _ => ?_
    exact SimTo.pure ⟨_, by push_cast; rfl, hLater⟩
  | some fork =>
    rcases fork with ⟨compared, target⟩
    have hLabel := hPlain.leads _ hForks
    have hNamed : ∃ name, target = .label name := by
      cases target with
      | label name => exact ⟨name, rfl⟩
      | _ => exact absurd hLabel (by simp [label?])
    rcases hNamed with ⟨name, rfl⟩
    have hValued : forks? c.op (c.inputs.map (valued items)) =
        some (compared.map (valued items), valued items (.label name)) := by
      rw [forks?_map, hForks]
      rfl
    rcases hMatch.forks hValued with ⟨compared', target', hForks', hCompared, hTarget, hSome⟩
    rcases Option.isSome_iff_exists.mp hSome with ⟨v, hNumber⟩
    have hBefore : ∃ n : Nat, before name items = some n ∧ v = n := by
      simp only [valued] at hNumber
      cases hPosition : before name items with
      | none =>
        rw [hPosition] at hNumber
        cases hNumber
      | some n =>
        rw [hPosition] at hNumber
        cases hNumber
        exact ⟨n, rfl, rfl⟩
    rcases hBefore with ⟨n, hBefore, rfl⟩
    rcases (At.start hCoded).jump hBefore with ⟨later, hBehind, hThere⟩
    rw [Nat.zero_add] at hThere
    simp only [proceed, hForks, execute, hForks']
    refine SimTo.bind_eq (assembled_sound.sim_takenWith hCompared c.op) fun taken => ?_
    cases taken with
    | false => exact SimTo.pure ⟨_, by push_cast; rfl, hLater⟩
    | true =>
      simp only [branchTo, goTo, hBehind, hTarget, hNumber]
      exact SimTo.pure ⟨n, rfl, hThere⟩

-- Visits that start at a line in a state and then stay behind that line and before another one.
def Opens (line stop : Nat) (t : Node) (visits : List (Int × Node)) : Prop :=
  ∃ tail, visits = ((line : Int), t) :: tail ∧ ∀ v ∈ tail, (line : Int) < v.1 ∧ v.1 < stop

theorem Opens.cons (hOpens : Opens (line + 1) stop u visits) (hInside : line + 1 < stop) :
    Opens line stop t (((line : Int), t) :: visits) := by
  rcases hOpens with ⟨tail, rfl, hTail⟩
  refine ⟨_, rfl, ?_⟩
  intro v hv
  rcases mem_cons.mp hv with rfl | hv
  · omega
  · have hBounds := hTail v hv
    omega

-- What registers hold for a command does not matter behind it.
theorem forget (hLinked : Linked sub app (view items held) s t) :
    Linked sub app (view items []) s t :=
  hLinked.mono ⟨fun _ hr => hr, fun _ hr => hr, fun _ hp => absurd hp not_mem_nil⟩

-- The instructions for constants put them into their registers, or fail at the first one that does
-- not fit.
theorem setting (hSets : Forall₂ IsSetInstr held sets) (hSpare : Spare items held)
    (acc : List (Reg × Int)) (hDistinct : ((acc ++ held).map Prod.fst).Nodup)
    (behind code : List Instr) (hInstrs : is = behind ++ (sets ++ code))
    (hLinked : Linked sub app (view items acc) s t) :
    match effect (checkAll (held.map Prod.snd)) s with
    | (.ok _, s') =>
      s' = s ∧ ∃ visits t', Path (Node.program sub is.toArray) behind.length t visits
          (behind.length + sets.length : Nat) t' ∧
        Linked sub app (view items (acc ++ held)) s t' ∧
        Opens behind.length (behind.length + sets.length + 1) t
          (visits ++ [(((behind.length + sets.length : Nat) : Int), t')])
    | (.error e, s') =>
      s' = s ∧ ∃ visits t', Run (Node.program sub is.toArray) behind.length t visits (.error e) t' ∧
        Linked sub app (view items []) s t' ∧
        Opens behind.length (behind.length + sets.length + 1) t visits := by
  induction hSets generalizing acc behind t with
  | nil =>
    refine ⟨rfl, [], t, .here, by simpa using hLinked, [], rfl, ?_⟩
    intro v hv
    exact absurd hv not_mem_nil
  | @cons p i held sets hSet _ ih =>
    rcases hSet with ⟨n, hostLine, rfl, hNumber⟩
    have hLine : Node.program sub is.toArray behind.length =
        some (Node.step sub behind.length (.op .core .set [.reg p.1, n] hostLine)) := by
      rw [hInstrs]
      exact program_line sub behind (sets ++ code) _
    have hExecute := execute_set (behind.length : Int) hostLine hNumber hLinked.hosted_right
    have hFree : ∀ q ∈ acc, q.1 ≠ p.1 := by
      intro q hq hSame
      simp only [map_append] at hDistinct
      exact (nodup_append.mp hDistinct).2.2 q.1 (mem_map_of_mem hq) p.1 mem_cons_self hSame
    have hHold := hLinked.hold (hSpare.place p mem_cons_self)
      (hSpare.unnamed p mem_cons_self) hFree p.2
    simp only [map_cons, checkAll, effect_bind, effect_get, effect_lift]
    generalize Block.checkWidth s.hardware p.2 = fits at hHold
    cases fits with
    | error e =>
      rw [hHold] at hExecute
      refine ⟨rfl, _, t, .fail hLine (effect_step_error hExecute), forget hLinked, [], rfl, ?_⟩
      intro v hv
      exact absurd hv not_mem_nil
    | ok _ =>
      rcases hHold with ⟨_, hSetReg, hLinked₁⟩
      rw [hSetReg] at hExecute
      have hStep := effect_step_ok hExecute hLinked₁.hidden.off.2
      have hLength :
          (behind ++ [Instr.op .core .set [.reg p.1, n] hostLine]).length = behind.length + 1 := by
        simp
      have hRest := ih ⟨fun q hq => hSpare.place q (mem_cons_of_mem _ hq),
            fun q hq => hSpare.unnamed q (mem_cons_of_mem _ hq)⟩
          (acc ++ [p]) (by simpa using hDistinct)
          (behind ++ [.op .core .set [.reg p.1, n] hostLine])
          (by rw [hInstrs]; simp) hLinked₁
      have hSum : behind.length + (Instr.op .core .set [.reg p.1, n] hostLine :: sets).length =
          behind.length + 1 + sets.length := by
        simp only [length_cons]
        omega
      rw [hLength, append_assoc] at hRest
      rw [hSum]
      dsimp only
      generalize effect (checkAll (held.map Prod.snd)) s = checked at hRest
      rcases checked with ⟨e | _, s'⟩
      · rcases hRest with ⟨rfl, visits, t', hRun, hLinked', hOpens⟩
        exact ⟨rfl, _, t', .next hLine hStep hRun, hLinked', hOpens.cons (by omega)⟩
      · rcases hRest with ⟨rfl, visits, t', hPath, hLinked', hOpens⟩
        exact ⟨rfl, _, t', .next hLine hStep hPath, hLinked', hOpens.cons (by omega)⟩

theorem step_sim (hCoded : Coded items items is)
    (hAt : CommandAt items is c rest line held sets os family) (hPlain : Plain items c)
    (hLinked : Linked sub app (view items []) s t) :
    match effect (Draft.step items sub c rest) s with
    | (.ok later, s') =>
      ∃ visits n t', Path (Node.program sub is.toArray) line t visits ((n : Nat) : Int) t' ∧
        At items is later n ∧
        Linked sub app (view items []) s' t' ∧ Opens line (line + c.size) t visits
    | (.error e, s') =>
      ∃ visits e' t', Run (Node.program sub is.toArray) line t visits (.error e') t' ∧
        e'.category = e.category ∧
        Linked sub app (view items []) s' t' ∧ Opens line (line + c.size) t visits := by
  rcases hAt.split with ⟨_, behind, code, hostLine, _, hInstrs, rfl, _⟩
  have hSize : behind.length + sets.length + 1 = behind.length + c.size := by
    rw [← hAt.block.length_sets, Nat.add_assoc]
  have hSetting := setting hAt.block.loads hAt.block.spare [] (by simpa using hAt.block.distinct)
      behind _ hInstrs hLinked
  rw [hAt.block.values, hSize] at hSetting
  have hLine : Node.program sub is.toArray (behind.length + sets.length : Nat) =
      some (Node.step sub (behind.length + sets.length : Nat) (.op family c.op os hostLine)) := by
    have hWhole := program_line sub (behind ++ sets) code (.op family c.op os hostLine)
    rwa [append_assoc, ← hInstrs, length_append] at hWhole
  rw [Draft.step, effect_bind]
  generalize effect (checkAll c.constants) s = checked at hSetting
  rcases checked with ⟨e | _, s₁⟩
  · rcases hSetting with ⟨rfl, visits, t', hRun, hLinked', hOpens⟩
    exact ⟨visits, e, t', hRun, rfl, hLinked', hOpens⟩
  · rcases hSetting with ⟨rfl, visits, t₁, hPath, hLinked₁, hOpens⟩
    have hMain := sim_proceed hCoded hAt hPlain hostLine s₁ t₁ hLinked₁
    dsimp only
    generalize effect (proceed items sub c rest) s₁ = left at hMain
    generalize hRight : effect (execute sub (behind.length + sets.length : Nat)
        (.op family c.op os hostLine)) t₁ = right at hMain
    rcases left with ⟨e | later, s'⟩ <;> rcases right with ⟨e' | ⟨next, output⟩, t'⟩
    · exact ⟨_, e', t', hPath.run (.fail hLine (effect_step_error hRight)), hMain.1,
        forget hMain.2, hOpens⟩
    · exact hMain.elim
    · exact hMain.elim
    · rcases hMain with ⟨⟨n, rfl, hThere⟩, hLinked'⟩
      have hStep := effect_step_ok hRight hLinked'.hidden.off.2
      exact ⟨_, n, t', hPath.append (.next hLine hStep .here), hThere, forget hLinked', hOpens⟩

---- Runs

def starts (items : List Item) (visits : List (Int × Node)) : List (Int × Node) :=
  visits.filter fun v => (commandAt items v.1.toNat).isSome

def lineOf (items rest : List Item) : Nat := size items - size rest

-- A visit to a place of a draft and one to the line for it, in linked states.
def VisitMatch (sub : Nat) (app : Int) (items : List Item) (v : List Item × Node)
    (w : Int × Node) : Prop :=
  w.1 = (lineOf items v.1 : Int) ∧ Linked sub app (view items []) v.2 w.2

theorem At.lineOf_eq (hAt : At items is rest line) : lineOf items rest = line := by
  rcases hAt.split with ⟨done, _, _, hItems, _, _, hSize, _⟩
  have hTotal := size_append done rest
  rw [← hItems] at hTotal
  rw [lineOf]
  omega

theorem CommandAt.mem (hAt : CommandAt items is c rest line held sets os family) :
    Item.command c ∈ items := by
  rcases hAt.split with ⟨_, _, _, _, hItems, _⟩
  rw [hItems]
  exact mem_append_right _ mem_cons_self

theorem starts_of_opens (hAt : CommandAt items is c rest line held sets os family)
    (hOpens : Opens line (line + c.size) t visits) (more : List (Int × Node)) :
    starts items (visits ++ more) = ((line : Int), t) :: starts items more := by
  rcases hOpens with ⟨tail, rfl, hTail⟩
  have hInside : starts items tail = [] := by
    refine filter_eq_nil_iff.mpr fun v hv => ?_
    have hBounds := hTail v hv
    rw [commandAt_inside hAt (n := v.1.toNat) (by omega) (by omega)]
    simp
  have hHead : (commandAt items ((line : Int)).toNat).isSome = true := by
    rcases hAt.split with ⟨done, _, _, _, hItems, _, _, hSize, _⟩
    have hStart := commandAt_append done (.command c :: rest) 0
    rw [← hItems, hSize] at hStart
    exact congrArg Option.isSome hStart
  unfold starts at hInside ⊢
  rw [filter_append, filter_cons, if_pos hHead, hInside]
  rfl

theorem run_of_draft (hCoded : Coded items items is) (hPlain : AllPlain items)
    {s' : Node} {visits : List (List Item × Node)} {r : Except Fault Unit}
    (hRun : Run (Draft.program items sub) rest s visits r s') (hAt : At items is rest line)
    (hLinked : Linked sub app (view items []) s t) :
    ∃ visits' r' t', Run (Node.program sub is.toArray) line t visits' r' t' ∧ SameEnd r r' ∧
      Linked sub app (view items []) s' t' ∧
      Forall₂ (VisitMatch sub app items) visits (starts items visits') := by
  induction hRun generalizing line t with
  | @done rest s hEnd =>
    have hNext : Draft.next rest = none := by simpa [Draft.program] using hEnd
    exact ⟨[], .ok (), t, .done (program_none (hAt.finish hNext)), rfl, hLinked, .nil⟩
  | @fail rest s s' x e hHere hFail =>
    rcases Option.map_eq_some_iff.mp hHere with ⟨⟨c, later⟩, hNext, rfl⟩
    rcases hAt.next hNext with ⟨held, sets, os, family, hCommand⟩
    have hSim := step_sim hCoded hCommand (hPlain.command hCommand.mem) hLinked
    rw [hFail] at hSim
    rcases hSim with ⟨visits', e', t', hRun', hCategory, hLinked', hOpens⟩
    refine ⟨visits', .error e', t', hRun', .error hCategory, hLinked', ?_⟩
    have hStarts := starts_of_opens hCommand hOpens []
    rw [append_nil] at hStarts
    rw [hStarts]
    exact .cons ⟨by rw [hAt.lineOf_eq], hLinked⟩ .nil
  | @next rest later s s₁ s' x visits r hHere hStep _ ih =>
    rcases Option.map_eq_some_iff.mp hHere with ⟨⟨c, _⟩, hNext, rfl⟩
    rcases hAt.next hNext with ⟨held, sets, os, family, hCommand⟩
    have hSim := step_sim hCoded hCommand (hPlain.command hCommand.mem) hLinked
    rw [hStep] at hSim
    rcases hSim with ⟨visits₁, n, _, hPath, hThere, hLinked₁, hOpens⟩
    rcases ih hThere hLinked₁ with ⟨visits₂, r', t', hRun', hEnd, hLinked', hVisits⟩
    refine ⟨visits₁ ++ visits₂, r', t', hPath.run hRun', hEnd, hLinked', ?_⟩
    rw [starts_of_opens hCommand hOpens]
    exact .cons ⟨by rw [hAt.lineOf_eq], hLinked⟩ hVisits

-- If the instructions come to an end, so does the draft. The instructions for a command are never
-- none, so the induction is on the number of visits.
theorem draft_of_run (hCoded : Coded items items is) (hPlain : AllPlain items)
    (hRun : Run (Node.program sub is.toArray) line t visits' r' t')
    (hAt : At items is rest line) (hLinked : Linked sub app (view items []) s t) :
    ∃ visits r s', Run (Draft.program items sub) rest s visits r s' := by
  induction hLength : visits'.length using Nat.strongRecOn generalizing visits' line t rest s with
  | ind n ih =>
    cases hNext : Draft.next rest with
    | none => exact ⟨[], .ok (), s, .done (by simp [Draft.program, hNext])⟩
    | some found =>
      rcases found with ⟨c, after⟩
      rcases hAt.next hNext with ⟨held, sets, os, family, hCommand⟩
      have hSim := step_sim hCoded hCommand (hPlain.command hCommand.mem) hLinked
      have hHere : Draft.program items sub rest = some (Draft.step items sub c after) := by
        simp [Draft.program, hNext]
      rcases hStep : effect (Draft.step items sub c after) s with ⟨e | _, _⟩
      · exact ⟨_, _, _, .fail hHere hStep⟩
      · rw [hStep] at hSim
        rcases hSim with ⟨_, m, _, hPath, hThere, hLinked₁, _, rfl, _⟩
        rcases hPath.rest hRun with ⟨more, rfl, hRest⟩
        have hShorter : more.length < n := by
          rw [← hLength]
          simp only [length_append, length_cons]
          omega
        rcases ih more.length hShorter hRest hThere hLinked₁ rfl with ⟨visits, r, s', hDraft⟩
        exact ⟨_, _, _, .next hHere hStep hDraft⟩

end QuantumNode.Assembly

namespace QuantumNode
open Draft Node Machine

namespace Assembly

-- The instructions for an item: none for a label; for a command one to set each constant and then
-- its own, in which labels are the numbers of instructions before them.
def Laid (items : List Item) : Item → List Instr → Prop
  | .label _ _, block => block = []
  | .command c, block =>
    ∃ sets family operands, block = sets ++ [.op family c.op operands c.line] ∧
      sets.length = c.constants.length ∧
      (∀ i ∈ sets, i.op? = some .set) ∧
      ∀ (j : Nat) (name : String), c.inputs[j]? = some (.label name) →
        ∃ n : Nat, before name items = some n ∧ operands[j]? = some (.imm n)

theorem op_of_isSetInstr (hLoads : Forall₂ IsSetInstr held is) : ∀ i ∈ is, i.op? = some .set := by
  induction hLoads with
  | nil => exact forall_mem_nil _
  | cons hFirst _ ih =>
    rcases hFirst with ⟨_, _, rfl, _⟩
    exact forall_mem_cons.mpr ⟨rfl, ih⟩

theorem blocks_of_build {items : List Item} {used : List Reg}
    (hExpanded : Expanded used part expanded)
    (hTable : ∀ name, table.lookup name = before name items)
    (hBuild : buildItems f (resolved table expanded) = .ok is) :
    ∃ blocks, is = blocks.flatten ∧ Forall₂ (Laid items) part blocks ∧
      ∀ n, (blocks.take n).flatten.length = size (part.take n) := by
  induction hExpanded generalizing is with
  | nil =>
    cases hBuild
    exact ⟨[], rfl, .nil, by simp [size]⟩
  | label _ ih =>
    rcases ih hBuild with ⟨blocks, rfl, hLaid, hSizes⟩
    refine ⟨[] :: blocks, rfl, .cons rfl hLaid, fun n => ?_⟩
    cases n with
    | zero => rfl
    | succ n => simpa [size] using hSizes n
  | @command c held _ _ _ _ hExpands _ ih =>
    rcases build_block hExpands.sets hBuild with ⟨sets, family, os, _, rfl, hLoads, hFit, hRest, _⟩
    rcases ih hRest with ⟨blocks, rfl, hLaid, hSizes⟩
    have hLength : sets.length = c.constants.length := by
      rw [← hExpands.values, length_map, hLoads.length_eq]
    refine ⟨(sets ++ [.op family c.op os c.line]) :: blocks, by simp,
      .cons ⟨sets, family, os, rfl, hLength, op_of_isSetInstr hLoads,
        labels_of_fitAll hTable hExpands.operands hFit⟩ hLaid, fun n => ?_⟩
    cases n with
    | zero => rfl
    | succ n =>
      simp only [take_succ_cons, flatten_cons, length_append, length_cons, length_nil, hSizes n,
        size, Command.size, hLength]

/-
  An assembled draft comes to an end exactly if the draft does. It then ends in the same way, having
  been at the starts of the same commands in the same order and in linked states, and leaves a
  linked state; so it does on the node, if the node may run that many instructions. Each label is
  the number of the first instruction for the items behind it.
-/
theorem runs_like_draft
    {f : Flavour}
    {d : Draft}
    {p : Subroutine}
    (hAssemble : assemble .full f d = .ok p)
    (hPlain : AllPlain d.items)
    {s : Node}
    {sub : Nat}
    {app : Int}
    (hHosts : s.Hosts sub app) :
    ((∃ visits r t, Run (Draft.program d.items sub) d.items s visits r t) ↔
      ∃ visits r t, Run (Node.program sub p.instrs.toArray) 0 s visits r t) ∧
    (∀ visits r t visits' r' t', Run (Draft.program d.items sub) d.items s visits r t →
      Run (Node.program sub p.instrs.toArray) 0 s visits' r' t' →
      SameEnd r r' ∧ Linked sub app (view d.items []) t t' ∧
        List.Forall₂ (VisitMatch sub app d.items) visits (starts d.items visits') ∧
        ∀ limit, visits'.length ≤ limit →
          ∃ q left, effect (runFrom sub p.instrs.toArray limit 0) s = (q, withBudget left t') ∧
            SameEnd r q) ∧
    ∃ blocks, p.instrs = blocks.flatten ∧ List.Forall₂ (Laid d.items) d.items blocks ∧
      ∀ n name line, d.items[n]? = some (.label name line) →
        before name d.items = some (blocks.take n).flatten.length := by
  have hCoded := coded_of_assemble hPlain hAssemble
  have hStart := At.start hCoded
  have hLinked := hHosts.linked (view d.items []) rfl
  have hForward : ∀ visits r t, Run (Draft.program d.items sub) d.items s visits r t → _ :=
    fun visits r t hRun => run_of_draft hCoded hPlain hRun hStart hLinked
  refine ⟨⟨?_, ?_⟩, ?_, ?_⟩
  · rintro ⟨visits, r, t, hRun⟩
    rcases hForward visits r t hRun with ⟨visits', r', t', hRun', _⟩
    exact ⟨visits', r', t', hRun'⟩
  · rintro ⟨visits', r', t', hRun'⟩
    exact draft_of_run hCoded hPlain hRun' hStart hLinked
  · intro visits r t visits' r' t' hRun hRun'
    rcases hForward visits r t hRun with ⟨others, q, u, hOther, hEnd, hLinked', hVisits⟩
    rcases hOther.unique hRun' with ⟨rfl, rfl, rfl⟩
    refine ⟨hEnd, hLinked', hVisits, fun limit hLimit => ?_⟩
    rcases runFrom_of_run hRun' hLimit with ⟨q, left, hNode, hSame⟩
    exact ⟨q, left, hNode, Eq.trans hSame hEnd⟩
  · rcases expanded_of_assemble hAssemble with ⟨_, _, hExpanded, hTable, hBuild, _⟩
    rcases blocks_of_build hExpanded (lookup_of_positions hExpanded hTable) hBuild with
      ⟨blocks, hBlocks, hLaid, hSizes⟩
    refine ⟨blocks, hBlocks, hLaid, fun n name line hLabel => ?_⟩
    rw [hSizes n]
    exact (before_of_positionsFrom hExpanded hTable hLabel).2.1

-- Store the numbers below three in an array, then load the last one.
def counting : Draft where
  version := none
  appId := some 0
  arguments := []
  items := [command .array [.int 3, .addr 0],
     command .set [.reg ⟨.r, 1⟩, .int 0],
     .label "LOOP" none,
     command .beq [.reg ⟨.r, 1⟩, .int 3, .label "EXIT"],
     command .store [.reg ⟨.r, 1⟩, .entry 0 (.reg ⟨.r, 1⟩)],
     command .add [.reg ⟨.r, 1⟩, .reg ⟨.r, 1⟩, .int 1],
     command .jmp [.label "LOOP"],
     .label "EXIT" none,
     command .load [.reg ⟨.c, 0⟩, .entry 0 (.int 2)]]

def countingNode : Node :=
  { Node.fresh "node" 0 .vanilla false false with
    registers := [(0, [])]
    arrays := [(0, [])]
    subroutines := [(0, some 0)] }

def countingCode : Subroutine where
  version := none
  appId := some 0
  arguments := []
  instrs := [core .set [.reg ⟨.r, 0⟩, .imm 3],
     core .array [.reg ⟨.r, 0⟩, .addr 0],
     core .set [.reg ⟨.r, 1⟩, .imm 0],
     core .set [.reg ⟨.r, 0⟩, .imm 3],
     core .beq [.reg ⟨.r, 1⟩, .reg ⟨.r, 0⟩, .imm 9],
     core .store [.reg ⟨.r, 1⟩, .entry 0 (.reg ⟨.r, 1⟩)],
     core .set [.reg ⟨.r, 0⟩, .imm 1],
     core .add [.reg ⟨.r, 1⟩, .reg ⟨.r, 1⟩, .reg ⟨.r, 0⟩],
     core .jmp [.imm 3],
     core .set [.reg ⟨.r, 0⟩, .imm 2],
     core .load [.reg ⟨.c, 0⟩, .entry 0 (.reg ⟨.r, 0⟩)]]

theorem runs_like_draft_counting :
    assemble .full .vanilla counting = .ok countingCode ∧
      AllPlain counting.items ∧ countingNode.Hosts 0 0 ∧
      ∃ visits r t visits' r' t',
        Run (Draft.program counting.items 0) counting.items countingNode visits r t ∧
        Run (Node.program 0 countingCode.instrs.toArray) 0 countingNode visits' r' t' ∧
        SameEnd r r' ∧ Linked 0 0 (view counting.items []) t t' := by
  have hAssemble : assemble .full .vanilla counting = .ok countingCode := rfl
  have hPlain : AllPlain counting.items := by decide
  have hHosts : countingNode.Hosts 0 0 := ⟨rfl, rfl, rfl⟩
  have hNode : (effect (runFrom 0 countingCode.instrs.toArray 100 0) countingNode).1.isOk := by
    decide +kernel
  rcases hOutcome : effect (runFrom 0 countingCode.instrs.toArray 100 0) countingNode with ⟨e | _, u⟩
  · rw [hOutcome] at hNode
    cases hNode
  rcases run_of_runFrom_ok hOutcome with ⟨visits', t', _, hRun', _⟩
  rcases runs_like_draft hAssemble hPlain hHosts with ⟨hEnds, hAlike, _⟩
  rcases hEnds.mpr ⟨visits', _, t', hRun'⟩ with ⟨visits, r, t, hRun⟩
  rcases hAlike _ _ _ _ _ _ hRun hRun' with ⟨hSame, hLinked, _⟩
  exact ⟨hAssemble, hPlain, hHosts, visits, r, t, visits', _, t', hRun, hRun', hSame, hLinked⟩

end Assembly

end QuantumNode
