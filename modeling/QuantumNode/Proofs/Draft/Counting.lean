import Mathlib.Data.Nat.Find
import QuantumNode.Proofs.Draft.Rounds

/-
  Loops that count, as instructions. The index starts at one number and is stepped by another one
  until it is equal to a third. If it never is, the loop does not end; otherwise the body is gone
  through once for each index before that.
-/

open List

namespace QuantumNode
open Table Node Machine Draft

namespace Machine
variable {κ : Type} [DecidableEq κ] {p : Machine κ} {stop : κ}

-- A program that ends where it comes to a position.
def stopAt (p : Machine κ) (stop : κ) : Machine κ := fun k => if k = stop then none else p k

theorem Path.stopAt (hPath : Path p k s visits k' t) (hAvoids : ∀ v ∈ visits, v.1 ≠ stop) :
    Path (Machine.stopAt p stop) k s visits k' t := by
  induction hPath with
  | here => exact .here
  | next hAt hStep _ ih =>
    refine .next ?_ hStep (ih fun v hv => hAvoids v (mem_cons_of_mem _ hv))
    rw [Machine.stopAt, if_neg (hAvoids _ mem_cons_self), hAt]

-- A loop whose index is tested at its head. The body leaves the index alone, wherever the run from
-- the first line comes to it.
structure Circles (q : Machine Int) (C : Int → Node → Prop) (stop step : Int)
    (first head lo hi exit : Int) (s : Node) : Prop where
  test : ∀ v w, C v w → ∃ away x, Path q head w away (if v = stop then exit else lo) x ∧
      away ≠ [] ∧ (∀ u ∈ away, u.1 < lo ∨ hi ≤ u.1) ∧ C v x
  body : ∀ visits v w, Path q first s visits lo w → C v w →
      ∃ steps x, Path q lo w steps hi x ∧ (∀ u ∈ steps, lo ≤ u.1 ∧ u.1 < hi) ∧ C v x
  next : ∀ v w, C v w → ∃ away x, Path q hi w away head x ∧
      (∀ u ∈ away, u.1 < lo ∨ hi ≤ u.1) ∧ C (v + step) x
  ended : q exit = none

namespace Circles
variable {q : Machine Int} {C : Int → Node → Prop} {start stop step first head lo hi exit : Int}
  {i k : Nat} {s w : Node} {visits : List (Int × Node)}

theorem index_succ (hNext : C (start + i * step + step) w) :
    C (start + (i + 1 : Nat) * step) w := by
  have hSame : start + (i + 1 : Nat) * step = start + i * step + step := by
    rw [Int.natCast_add, Int.add_mul]
    omega
  rwa [hSame]

variable (hCircles : Circles q C stop step first head lo hi exit s)
include hCircles
-- From the head to the head, if the index is not where it stops.
theorem round (hReached : Path q first s visits head w) (hIndex : C v w) (hOther : v ≠ stop) :
    ∃ away x steps y back z, Path q head w away lo x ∧ away ≠ [] ∧
      (∀ u ∈ away, u.1 < lo ∨ hi ≤ u.1) ∧ C v x ∧
      Path q lo x steps hi y ∧ (∀ u ∈ steps, lo ≤ u.1 ∧ u.1 < hi) ∧
      Path q hi y back head z ∧ (∀ u ∈ back, u.1 < lo ∨ hi ≤ u.1) ∧ C (v + step) z := by
  rcases hCircles.test v w hIndex with ⟨away, x, hEnter, hSome, hAway, hThere⟩
  rw [if_neg hOther] at hEnter
  rcases hCircles.body _ v x (hReached.append hEnter) hThere with ⟨steps, y, hSteps, hInside, hKept⟩
  rcases hCircles.next v y hKept with ⟨back, z, hBack, hOutside, hNext⟩
  exact ⟨away, x, steps, y, back, z, hEnter, hSome, hAway, hThere, hSteps, hInside, hBack,
    hOutside, hNext⟩

-- The rounds that are left, by induction on how many they are.
theorem inRounds (m : Nat) (hStop : start + (i + m : Nat) * step = stop)
    (hLeast : ∀ j < i + m, start + (j : Nat) * step ≠ stop)
    (hReached : Path q first s visits head w) (hIndex : C (start + i * step) w) :
    ∃ t, InRounds q (fun l => l) lo hi (fun _ _ => True) (fun j w _ => C (start + j * step) w)
        (i + m) i head w t ∧ C stop t := by
  induction m generalizing i w visits with
  | zero =>
    rcases hCircles.test _ w hIndex with ⟨away, t, hLeave, _, hAway, hEnd⟩
    rw [Nat.add_zero] at hStop
    rw [if_pos hStop] at hLeave
    rw [hStop] at hEnd
    exact ⟨t, .last hLeave hCircles.ended hAway trivial, hEnd⟩
  | succ m ih =>
    rcases hCircles.round hReached hIndex (hLeast i (by omega)) with
      ⟨_, _, _, _, _, z, hEnter, _, hAway, hThere, hSteps, hInside, hBack, hOutside, hNext⟩
    have hShift : i + (m + 1) = i + 1 + m := by omega
    rw [hShift] at hStop hLeast ⊢
    rcases ih hStop hLeast (((hReached.append hEnter).append hSteps).append hBack)
        (index_succ hNext) with ⟨t, hRounds, hEnd⟩
    exact ⟨t, .round hEnter hAway trivial rfl hSteps hInside rfl hThere
      (hRounds.prepend (fun _ _ _ _ _ => trivial) hBack hOutside trivial), hEnd⟩

-- Without a round at which it stops there is no end; the induction is on the visits.
theorem endless (hNever : ∀ k : Nat, start + k * step ≠ stop)
    (hReached : Path q first s visits head w) (hIndex : C (start + i * step) w)
    (hRun : Run q head w more e t) : False := by
  induction hLength : more.length using Nat.strongRecOn generalizing more i w visits with
  | ind n ih =>
    rcases hCircles.round hReached hIndex (hNever i) with
      ⟨away, _, _, _, _, z, hEnter, hSome, _, _, hSteps, _, hBack, _, hNext⟩
    rcases ((hEnter.append hSteps).append hBack).rest hRun with ⟨later, rfl, hRest⟩
    have hPositive := length_pos_iff.mpr hSome
    simp only [length_append] at hLength
    exact ih later.length (by omega)
      (((hReached.append hEnter).append hSteps).append hBack) (index_succ hNext) hRest rfl

end Circles

end Machine

namespace Assembly
open Node.Linked Flow
variable {items front rest : List Item} {is : List Instr} {sub line : Nat} {app v : Int} {r : Reg}
  {c : Command} {s t : Node}

theorem At.behind (hAt : At items is (front ++ rest) line) : At items is rest (line + size front) := by
  fun_induction size front generalizing line with
  | case1 => exact hAt
  | case2 _ _ _ ih => exact ih hAt.label
  | case3 _ _ ih =>
    have hLater := ih hAt.command
    rwa [Nat.add_assoc] at hLater

-- A node on which an application counts in a register: numbers may be of any width.
structure Counts (sub : Nat) (app : Int) (r : Reg) (v : Int) (s : Node) : Prop where
  hosts : s.Hosts sub app
  wide : s.hardware = false
  value : s.registerOf app r = some v

namespace Counts

theorem of_sets (hHosts : s.Hosts sub app) (hWide : s.hardware = false)
    (hSets : Sets app r v s t) : Counts sub app r v t := by
  refine ⟨?_, ?_, hSets.registerOf_self⟩
  · rcases hSets with ⟨_, _, rfl⟩
    exact ⟨hHosts.subroutine, by simp [withRegs], hHosts.off⟩
  · rcases hSets with ⟨_, _, rfl⟩
    exact hWide

end Counts

-- The instructions for a command behind which the index is known.
theorem path_of_command (hCoded : Coded items items is) (hPlain : AllPlain items)
    (hNamed : Named items r) (hAt : At items is (.command c :: rest) line)
    (hHosts : s.Hosts sub app)
    (hStep : ∃ t, effect (Draft.step items sub c rest) s = (.ok place, t) ∧ Counts sub app r v t)
    (hPlace : At items is place line') :
    ∃ steps u, Path (Node.program sub is.toArray) line s steps line' u ∧ steps ≠ [] ∧
      (∀ w ∈ steps, (line : Int) ≤ w.1 ∧ w.1 < (line + c.size : Nat)) ∧ Counts sub app r v u := by
  rcases hAt.next rfl with ⟨_, _, _, _, hCommand⟩
  rcases hStep with ⟨_, hStep, hCounts⟩
  have hSim := step_sim hCoded hCommand (hPlain.command hCommand.mem)
    (hHosts.linked (view items []) rfl)
  rw [hStep] at hSim
  rcases hSim with ⟨_, _, u, hPath, hThere, hLinked, tail, rfl, hTail⟩
  rw [← hThere.lineOf_eq, hPlace.lineOf_eq] at hPath
  refine ⟨_, u, hPath, cons_ne_nil _ _, fun w hw => ?_, hLinked.holds.1,
    hLinked.hardware_eq.trans hCounts.wide, (hLinked.registerOf_eq hNamed).trans hCounts.value⟩
  have hPositive : 0 < c.size := Nat.succ_pos _
  rcases mem_cons.mp hw with rfl | hLater
  · omega
  · have hBounds := hTail w hLater
    omega

section Steps
variable {whole : List Item} {stop step : Int}

theorem checkAll_wide (hWide : s.hardware = false) (values : List Int) :
    effect (checkAll values) s = (.ok (), s) := by
  induction values with
  | nil => rfl
  | cons v values ih =>
    simp only [checkAll, effect_get_bind, hWide]
    exact ih

variable (hPlace : Registers.checkPlace r = .ok ()) (hCounts : Counts sub app r v s)
include hPlace
theorem effect_setWide (hHosts : s.Hosts sub app) (hWide : s.hardware = false) (v : Int) :
    ∃ t, effect (setReg app r v) s = (.ok ⟨⟩, t) ∧ Counts sub app r v t := by
  rcases Option.isSome_iff_exists.mp hHosts.registers with ⟨regs, hRegs⟩
  refine ⟨withRegs app (put r (some v) regs) s, ?_, .of_sets hHosts hWide ⟨regs, hRegs, rfl⟩⟩
  rw [effect_setReg hRegs, Registers.set_eq, hPlace, hWide]
  rfl

theorem effect_set (hHosts : s.Hosts sub app) (hWide : s.hardware = false) (v : Int) :
    ∃ t, effect (Draft.step whole sub (.plain .set [.reg r, .int v] none) rest) s = (.ok rest, t) ∧
      Counts sub app r v t := by
  rcases effect_setWide hPlace hHosts hWide v with ⟨t, hSet, hLater⟩
  refine ⟨t, ?_, hLater⟩
  rw [step_set]
  simp only [effect_bind, effect_appOf hHosts.subroutine, hSet, effect_pure]

theorem effect_index (hHosts : s.Hosts sub app) (hValue : s.registerOf app r = some v) :
    effect (getReg app r) s = (.ok (some v), s) := by
  rcases Option.isSome_iff_exists.mp hHosts.registers with ⟨regs, hRegs⟩
  rw [registerOf, hRegs] at hValue
  rw [effect_getReg hRegs, Registers.get_eq, hPlace]
  exact congrArg (fun v => (Except.ok v, s)) hValue

include hCounts

theorem effect_add (step : Int) :
    ∃ t, effect (Draft.step whole sub (.plain .add [.reg r, .reg r, .int step] none) rest) s =
        (.ok rest, t) ∧ Counts sub app r (v + step) t := by
  rcases effect_setWide hPlace hCounts.hosts hCounts.wide (v + step) with ⟨t, hSet, hLater⟩
  have hSum : effect (arithmetic ofOperand app .add r (.reg r) (.int step) none) s =
      effect (setReg app r (v + step)) s := by
    simp only [arithmetic, checkModulus, ofOperand, effect_bind, effect_lift,
      effect_index hPlace hCounts.hosts hCounts.value]
    rfl
  refine ⟨t, ?_, hLater⟩
  rw [step_add]
  simp only [effect_bind, checkAll_wide hCounts.wide, effect_appOf hCounts.hosts.subroutine, hSum,
    hSet, effect_pure]

theorem effect_test (stop : Int) (hExit : Draft.behind exit whole = some later) :
    ∃ t, effect (Draft.step whole sub (.plain .beq [.reg r, .int stop, .label exit] none) rest) s =
        (.ok (if v = stop then later else rest), t) ∧ Counts sub app r v t := by
  refine ⟨s, ?_, hCounts⟩
  rw [step_beq]
  simp only [effect_bind, checkAll_wide hCounts.wide, takenWith,
    effect_appOf hCounts.hosts.subroutine, readAll, ofOperand, effect_index hPlace hCounts.hosts hCounts.value,
    effect_pure, Op.condition, Operand.number?]
  by_cases hStop : v = stop
  · subst hStop
    simp [goTo, hExit]
  · simp [hStop]

omit hPlace

theorem effect_jmp (hEntry : Draft.behind entry whole = some place) :
    ∃ t, effect (Draft.step whole sub (.plain .jmp [.label entry] none) rest) s = (.ok place, t) ∧
      Counts sub app r v t := by
  refine ⟨s, ?_, hCounts⟩
  rw [step_jmp]
  simp only [takenWith, effect_bind, effect_appOf hCounts.hosts.subroutine, readAll, effect_pure,
    if_true, goTo, hEntry]

end Steps

section Loop

variable {labels : LoopLabels} {body : List Item} {start stop step : Int} {exit head hi lo : Nat}

variable (hCoded : Coded items items is) (hPlain : AllPlain items)
  (hItems : items = front ++ (loopItems labels r ⟨.int start, .int stop, .int step⟩ body ++ rest))
  (hPlace : Registers.checkPlace r = .ok ())

include hItems

theorem named_of_loop : Named items r := by
  refine named_of_mem_inputs (c := loopSet r ⟨.int start, .int stop, .int step⟩) ?_ mem_cons_self
  rw [hItems, loopItems_append]
  exact mem_append_right _ mem_cons_self

include hCoded

theorem at_loop : At items is (.command (loopSet r ⟨.int start, .int stop, .int step⟩) ::
    .label labels.entry none :: loopHead labels r ⟨.int start, .int stop, .int step⟩ body rest)
    (size front) := by
  have hStart := At.start hCoded
  nth_rewrite 2 [hItems] at hStart
  rw [loopItems_append] at hStart
  have hBehind := hStart.behind
  rwa [Nat.zero_add] at hBehind

include hPlain hPlace

-- The lines of a loop: its head is behind the command that sets the index, its body is behind the
-- test.
theorem circles_of_loop (hResolves : Flow.Resolves items)
    (hHead : head = size front + (loopSet r ⟨.int start, .int stop, .int step⟩).size)
    (hLow : lo = head + (loopTest labels r ⟨.int start, .int stop, .int step⟩).size)
    (hHigh : hi = lo + size body)
    (hExit : exit = hi + (loopStep r ⟨.int start, .int stop, .int step⟩).size +
      (loopJump labels).size)
    (hBody : ∀ visits v w,
      Path (stopAt (Node.program sub is.toArray) exit) (size front : Nat) s visits lo w →
        Counts sub app r v w →
        ∃ steps x, Path (Node.program sub is.toArray) lo w steps hi x ∧
          (∀ u ∈ steps, (lo : Int) ≤ u.1 ∧ u.1 < hi) ∧ Counts sub app r v x) :
    Circles (stopAt (Node.program sub is.toArray) exit) (Counts sub app r) stop step
      (size front : Nat) head lo hi exit s := by
  have hNamed := named_of_loop hItems
  have hPositive : 0 < (loopJump labels).size := Nat.succ_pos _
  have hTestAt := (at_loop hCoded hItems).command.label
  have hBodyAt := hTestAt.command
  have hNextAt : At items is (.command (loopStep r ⟨.int start, .int stop, .int step⟩) ::
      .command (loopJump labels) :: .label labels.exit none :: rest) _ := hBodyAt.behind
  have hJumpAt := hNextAt.command
  have hExitAt := hJumpAt.command.label
  rw [← hHead] at hTestAt hBodyAt hNextAt hJumpAt hExitAt
  rw [← hLow] at hBodyAt hNextAt hJumpAt hExitAt
  rw [← hHigh] at hNextAt hJumpAt hExitAt
  have hEntry : Draft.behind labels.entry items =
      some (loopHead labels r ⟨.int start, .int stop, .int step⟩ body rest) := by
    refine hResolves labels.entry none
      (front ++ [.command (loopSet r ⟨.int start, .int stop, .int step⟩)]) _ ?_
    rw [hItems, loopItems_append]
    simp
  have hLeave : Draft.behind labels.exit items = some rest := by
    refine hResolves labels.exit none
      (front ++ loopStart labels r ⟨.int start, .int stop, .int step⟩ ++ body ++
        (loopEnd labels r ⟨.int start, .int stop, .int step⟩).take 2) _ ?_
    rw [hItems, loopItems]
    simp [loopEnd]
  have hStopped : ∀ {k k' : Int} {w x : Node} {steps : List (Int × Node)},
      Path (Node.program sub is.toArray) k w steps k' x → (∀ u ∈ steps, u.1 < exit) →
        Path (stopAt (Node.program sub is.toArray) exit) k w steps k' x :=
    fun hPath hBefore => hPath.stopAt fun u hu => Int.ne_of_lt (hBefore u hu)
  refine ⟨fun v w hCounts => ?_, fun visits v w hReached hCounts => ?_, fun v w hCounts => ?_, ?_⟩
  · have hLeads : At items is (if v = stop then rest else
        body ++ (loopEnd labels r ⟨.int start, .int stop, .int step⟩ ++ rest))
          (if v = stop then exit else lo) := by
      by_cases hStop : v = stop
      · simpa only [if_pos hStop, hExit] using hExitAt
      · simpa only [if_neg hStop] using hBodyAt
    rcases path_of_command hCoded hPlain hNamed hTestAt hCounts.hosts
        (effect_test hPlace hCounts stop hLeave) hLeads with
      ⟨away, x, hPath, hSome, hLines, hThere⟩
    rw [apply_ite (Nat.cast : Nat → Int)] at hPath
    refine ⟨away, x, hStopped hPath fun u hu => ?_, hSome, fun u hu => ?_, hThere⟩
    · have hBounds := hLines u hu
      omega
    · have hBounds := hLines u hu
      omega
  · rcases hBody visits v w hReached hCounts with ⟨steps, x, hPath, hInside, hThere⟩
    refine ⟨steps, x, hStopped hPath fun u hu => ?_, hInside, hThere⟩
    have hBounds := hInside u hu
    omega
  · rcases path_of_command hCoded hPlain hNamed hNextAt hCounts.hosts
        (effect_add hPlace hCounts step) hJumpAt with
      ⟨adding, x, hAdd, _, hLines, hAdded⟩
    rcases path_of_command hCoded hPlain hNamed hJumpAt hAdded.hosts
        (effect_jmp hAdded hEntry) hTestAt with
      ⟨jumping, y, hJump, _, hLines', hThere⟩
    have hBehind : ∀ u ∈ adding ++ jumping, (hi : Int) ≤ u.1 ∧ u.1 < exit := by
      intro u hu
      rcases mem_append.mp hu with hFirst | hLater
      · have hBounds := hLines u hFirst
        omega
      · have hBounds := hLines' u hLater
        omega
    exact ⟨_, y, hStopped (hAdd.append hJump) fun u hu => (hBehind u hu).2,
      fun u hu => .inr (hBehind u hu).1, hThere⟩
  · rw [stopAt, if_pos rfl]

end Loop

/-
  A loop in an assembled draft, up to the line behind it. Its body is gone through from end to end
  and leaves the index alone, wherever the run comes to it. The loop ends exactly if the index is
  where it stops after some number of steps. The body is then gone through once for each smaller
  number of steps, with the index in the register.
-/
theorem loop_counts
    {f : Flavour}
    {d : Draft}
    {p : Subroutine}
    (hAssemble : assemble .full f d = .ok p)
    (hPlain : AllPlain d.items)
    {front items rest body : List Item}
    (hItems : d.items = front ++ (items ++ rest))
    {labels : LoopLabels}
    {r : Reg}
    {start stop step : Int}
    (hLoop : items.map Item.bare = loopItems labels r ⟨.int start, .int stop, .int step⟩ body)
    (hPlace : Registers.checkPlace r = .ok ())
    {lo hi exit : Nat}
    (hLow : lo = size front + size (loopStart labels r ⟨.int start, .int stop, .int step⟩))
    (hHigh : hi = lo + size body)
    (hExit : exit = size (front ++ items))
    {s : Node}
    {sub : Nat}
    {app : Int}
    (hHosts : s.Hosts sub app)
    (hWide : s.hardware = false)
    (hBody : ∀ visits v w,
      Path (stopAt (Node.program sub p.instrs.toArray) exit) (size front : Nat) s visits lo w →
        Counts sub app r v w →
        ∃ steps x, Path (Node.program sub p.instrs.toArray) lo w steps hi x ∧
          (∀ u ∈ steps, (lo : Int) ≤ u.1 ∧ u.1 < hi) ∧ Counts sub app r v x) :
    ((∃ visits e t,
        Run (stopAt (Node.program sub p.instrs.toArray) exit) (size front : Nat) s visits e t) ↔
      ∃ k : Nat, start + k * step = stop) ∧
    ∀ k : Nat, start + k * step = stop → (∀ j < k, start + (j : Nat) * step ≠ stop) →
      ∃ t, InRounds (stopAt (Node.program sub p.instrs.toArray) exit) (fun line => line) lo hi
          (fun _ _ => True) (fun j w _ => Counts sub app r (start + j * step) w) k 0
          (size front : Nat) s t ∧
        Counts sub app r stop t := by
  have hCoded := coded_bare (coded_of_assemble hPlain hAssemble)
  have hWhole : d.items.map Item.bare = front.map Item.bare ++
      (loopItems labels r ⟨.int start, .int stop, .int step⟩ body ++ rest.map Item.bare) := by
    rw [hItems, map_append, map_append, hLoop]
  have hTotal := size_loopItems labels r ⟨.int start, .int stop, .int step⟩ body
  rw [size_append, ← size_map_bare items, hLoop, hTotal] at hExit
  rw [size_loopStart] at hLow
  have hSize := size_map_bare front
  rw [← hSize] at hBody
  have hCircles := circles_of_loop hCoded (allPlain_bare.mpr hPlain) hWhole hPlace
    (resolves_bare hAssemble) rfl (by omega) hHigh (by omega) hBody
  have hStart := at_loop hCoded hWhole
  rcases path_of_command hCoded (allPlain_bare.mpr hPlain) (named_of_loop hWhole) hStart hHosts
      (effect_set hPlace hHosts hWide start) hStart.command with
    ⟨steps, w, hPath, _, hLines, hCounts⟩
  rw [hSize] at hCircles hPath hLines
  have hBefore : ∀ u ∈ steps, u.1 ≠ (exit : Int) := by
    intro u hu
    have hBounds := hLines u hu
    omega
  have hFirst := hPath.stopAt hBefore
  have hIndex : Counts sub app r (start + (0 : Nat) * step) w := by
    rw [Int.natCast_zero, Int.zero_mul, Int.add_zero]
    exact hCounts
  refine (fun hRounds => ⟨⟨?_, fun hSome => ?_⟩, hRounds⟩) ?_
  · intro k hStop hLeast
    rw [← Nat.zero_add k] at hStop hLeast ⊢
    rcases hCircles.inRounds k hStop hLeast hFirst hIndex with ⟨t, hRounds, hEnd⟩
    refine ⟨t, hRounds.prepend (fun _ _ _ _ _ => trivial) hFirst (fun u hu => ?_) trivial, hEnd⟩
    have hBounds := hLines u hu
    omega
  · rintro ⟨visits, e, t, hRun⟩
    by_contra hNever
    rcases hFirst.rest hRun with ⟨_, _, hRest⟩
    exact hCircles.endless (fun k hStop => hNever ⟨k, hStop⟩) hFirst hIndex hRest
  · rcases hRounds (Nat.find hSome) (Nat.find_spec hSome) fun j hj => Nat.find_min hSome hj with
      ⟨t, hRounds, _⟩
    rcases hRounds.run with ⟨visits, hRun⟩
    exact ⟨visits, _, t, hRun⟩

-- Count down from seven to one, two at a time.
def countdown : Draft where
  version := none
  appId := some 0
  arguments := []
  items := loopItems ⟨"LOOP", "EXIT"⟩ ⟨.r, 1⟩ ⟨.int 7, .int 1, .int (-2)⟩
    [command .set [.reg ⟨.r, 2⟩, .int 7]]

theorem loop_counts_down :
    ∃ p t, assemble .full .vanilla countdown = .ok p ∧
      InRounds (stopAt (Node.program 0 p.instrs.toArray) 7) (fun line => line) 3 4
        (fun _ _ => True) (fun j w _ => Counts 0 0 ⟨.r, 1⟩ (7 + j * -2) w) 3 0 0 countingNode t ∧
      Counts 0 0 ⟨.r, 1⟩ 1 t := by
  have hPlain : AllPlain countdown.items := by decide
  rcases hAssemble : assemble .full .vanilla countdown with _ | p
  · cases hAssemble
  have hItems : countdown.items = [] ++ (countdown.items ++ []) := rfl
  have hLoop : countdown.items.map Item.bare = countdown.items := rfl
  have hLow : 3 = size [] + size
      (loopStart ⟨"LOOP", "EXIT"⟩ ⟨.r, 1⟩ ⟨.int 7, .int 1, .int (-2)⟩) := rfl
  have hExit : 7 = size ([] ++ countdown.items) := rfl
  have hHosts : countingNode.Hosts 0 0 := ⟨rfl, rfl, rfl⟩
  have hCoded := coded_of_assemble hPlain hAssemble
  have hAt := (At.start hCoded).command.label.command
  have hCounts := loop_counts hAssemble hPlain hItems hLoop rfl hLow rfl hExit hHosts rfl
    fun _ v w _ hCounts => by
      rcases path_of_command hCoded hPlain (by decide) hAt hCounts.hosts
        ((effect_set (r := ⟨.r, 2⟩) rfl hCounts.hosts hCounts.wide 7).imp fun _ hSet =>
          ⟨hSet.1, hSet.2.hosts,
            hSet.2.wide, holds_of_step (fits_of_coded hCoded) (by decide) (by decide)
              hCounts.hosts hCounts.value hSet.1⟩) hAt.command with
        ⟨steps, x, hPath, _, hLines, hThere⟩
      exact ⟨steps, x, hPath, hLines, hThere⟩
  rcases hCounts.2 3 rfl (by decide) with ⟨t, hRounds, hEnd⟩
  exact ⟨p, t, rfl, hRounds, hEnd⟩

end Assembly

end QuantumNode
