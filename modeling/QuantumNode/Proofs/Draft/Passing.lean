import QuantumNode.Proofs.Flow.Preservation
import QuantumNode.Proofs.Node.Requests

/-
  Runs that pass through a part of a draft. What a part does is told by what its commands,
  conditions and loops do; parts whose branches stay inside are passed from end to end.
-/

open List

namespace QuantumNode.Draft
open Item

variable {more : List (List Item × Node)} {held : List (Reg × Int)}
  {front others place rest : List Item} {compared : List Operand} {labels : LoopLabels}
  {range : LoopRange} {u : Node} {Q : Node → Prop} {op : Op}

open Node Machine Assembly Flow
variable {c : Command} {code items later : List Item} {os : List Operand} {r : Reg}
variable {whole : List Item} {sub : Nat} {app : Int}
section Steps
variable {s t : Node}

theorem checkAll_ok (hEffect : effect (checkAll values) s = (.ok a, t)) : t = s := by
  induction values with
  | nil =>
    cases hEffect
    rfl
  | cons v values ih =>
    simp only [checkAll, effect_get_bind] at hEffect
    rcases of_bind_ok hEffect with ⟨_, _, hWidth, hLater⟩
    cases (effect_lift_ok hWidth).2
    exact ih hLater

-- Values are looked up without any change.
theorem ofOperand_ok (hEffect : effect (ofOperand app o) s = (.ok v, t)) : t = s := by
  cases o with
  | reg r => exact (getReg_ok hEffect).1
  | _ =>
    simp only [ofOperand] at hEffect
    split at hEffect <;> cases hEffect
    rfl

theorem readAll_ok (hEffect : effect (readAll ofOperand app os) s = (.ok values, t)) : t = s := by
  induction os generalizing values t with
  | nil =>
    cases hEffect
    rfl
  | cons o os ih =>
    rcases of_bind_ok hEffect with ⟨v, _, hFirst, hLater⟩
    cases ofOperand_ok hFirst
    rcases of_bind_ok hLater with ⟨_, _, hRest, hDone⟩
    cases ih hRest
    cases hDone
    rfl

theorem takenWith_ok {taken : Bool}
    (hEffect : effect (takenWith ofOperand sub op os) s = (.ok taken, t)) : t = s := by
  rcases forApp_ok hEffect with ⟨_, _, hRead⟩
  rcases of_bind_ok hRead with ⟨_, _, hValues, hLater⟩
  cases readAll_ok hValues
  split at hLater
  · cases hLater
    rfl
  · exact (effect_lift_ok hLater).2

-- A command that does not branch is carried out, and the draft goes on behind it.
theorem step_straight (hOnward : forks? c.op c.inputs = none)
    (hStep : effect (step whole sub c rest) s = (.ok place, t)) :
    place = rest ∧
      ∃ v, effect (carryOut sub c.op (c.inputs.map (valued whole))) s = (.ok v, t) := by
  rcases of_bind_ok hStep with ⟨_, _, hCheck, hProceed⟩
  cases checkAll_ok hCheck
  simp only [proceed, hOnward] at hProceed
  rcases of_bind_ok hProceed with ⟨v, _, hCarry, ⟨⟩⟩
  exact ⟨rfl, v, hCarry⟩

-- A branch changes nothing; if it is taken, the draft goes on behind its label.
theorem step_fork (hForks : forks? c.op c.inputs = some (compared, target))
    (hStep : effect (step whole sub c rest) s = (.ok place, t)) :
    t = s ∧ ∃ taken,
      effect (takenWith ofOperand sub c.op (compared.map (valued whole))) s = (.ok taken, s) ∧
        (taken = false → place = rest) ∧
        (taken = true → ∃ name, target = .label name ∧ behind name whole = some place) := by
  rcases of_bind_ok hStep with ⟨_, _, hCheck, hProceed⟩
  cases checkAll_ok hCheck
  simp only [proceed, hForks] at hProceed
  rcases of_bind_ok hProceed with ⟨taken, _, hTaken, hLead⟩
  cases takenWith_ok hTaken
  cases taken with
  | false =>
    cases hLead
    exact ⟨rfl, false, hTaken, fun _ => rfl, by rintro ⟨⟩⟩
  | true =>
    simp only [if_true] at hLead
    unfold goTo at hLead
    split at hLead
    · rename_i name
      split at hLead
      · rename_i _ hFound
        cases hLead
        exact ⟨rfl, true, hTaken, by rintro ⟨⟩, fun _ => ⟨name, rfl, hFound⟩⟩
      · cases hLead
    · cases hLead

---- What steps keep

theorem mem_outputs_of_valued (hOutput : r ∈ outputs op (os.map (valued whole))) :
    r ∈ outputs op os := by
  unfold outputs at hOutput ⊢
  split at hOutput
  · rename_i q hTarget
    rcases Option.bind_eq_some_iff.mp hTarget with ⟨j, hPlace, hOperand⟩
    rw [getElem?_map] at hOperand
    rcases Option.map_eq_some_iff.mp hOperand with ⟨o, hSource, hValued⟩
    rw [hPlace, Option.bind_some, hSource, eq_reg_of_valued hValued]
    exact hOutput
  · exact absurd hOutput not_mem_nil

variable (hFits : Fits whole) (hCommand : Item.command c ∈ whole)
include hFits hCommand
-- A command leaves alone the registers that it does not write to.
theorem linked_of_step (hFree : ∀ r ∈ outputs c.op c.inputs, ∀ p ∈ held, p.1 ≠ r)
    (hLinked : Linked sub app (.entire held) s s)
    (hStep : effect (step whole sub c rest) s = (.ok place, t)) :
    Linked sub app (.entire held) t t := by
  cases hForks : forks? c.op c.inputs with
  | some fork =>
    rw [(step_fork hForks hStep).1]
    exact hLinked
  | none =>
    rcases step_straight hForks hStep with ⟨_, v, hCarry⟩
    rcases hFits c hCommand with ⟨P, _, hMatch⟩
    have hAlike : MatchFrom (alike (.entire held)) (target? c.op) 0 c.op.slots
        (c.inputs.map (valued whole)) (c.inputs.map (valued whole)) :=
      matchFrom_alike hMatch fun _ _ => trivial
    have hStraight : forks? c.op (c.inputs.map (valued whole)) = none := by
      rw [forks?_map, hForks]
      rfl
    have hSim := sim_carryOutAlike hAlike hStraight
      (fun r hr => hFree r (mem_outputs_of_valued hr)) s s hLinked
    rw [hCarry] at hSim
    exact hSim.2.mono (.writing _ _)

theorem holds_of_step (hFree : r ∉ outputs c.op c.inputs) (hHosts : s.Hosts sub app)
    (hHolds : s.registerOf app r = some v)
    (hStep : effect (step whole sub c rest) s = (.ok place, t)) : t.registerOf app r = some v := by
  have hLinked := hHosts.holding (.entire [(r, v)]) (forall_mem_singleton.mpr hHolds)
  have hLater := linked_of_step hFits hCommand (fun q hq p hp => by
    rw [mem_singleton.mp hp]
    rintro rfl
    exact hFree hq) hLinked hStep
  exact hLater.holds.2 (r, v) mem_cons_self

end Steps

---- Legs

-- The first leg of a run that comes to its end: within some lines it gets to a place, in a state
-- with a property, and goes on from there.
def Leg (whole : List Item) (sub : Nat) (app : Int) (lo hi : Nat) (rest : List Item)
    (R : Node → Prop) (start : List Item) (s : Node) (visits : List (List Item × Node))
    (t : Node) : Prop :=
  ∃ steps stop u more, visits = steps ++ more ∧
    Path (Draft.program whole sub) start s steps stop u ∧ SamePlace rest stop ∧
    (∀ w ∈ steps, lo ≤ lineOf whole w.1 ∧ lineOf whole w.1 < hi) ∧
    u.Hosts sub app ∧ R u ∧ Run (Draft.program whole sub) stop u more (.ok ()) t

namespace Leg
variable {lo hi : Nat} {start : List Item} {R : Node → Prop} {s t : Node}
variable {visits : List (List Item × Node)}

protected theorem here (hPlace : SamePlace rest start) (hHosts : s.Hosts sub app) (hHolds : R s)
    (hRun : Run (Draft.program whole sub) start s visits (.ok ()) t) :
    Leg whole sub app lo hi rest R start s visits t :=
  ⟨[], start, s, visits, rfl, .here, hPlace, by rintro w ⟨⟩, hHosts, hHolds, hRun⟩

theorem mono (hLeg : Leg whole sub app lo hi rest R start s visits t) (hLow : lo' ≤ lo)
    (hHigh : hi ≤ hi') (hImplies : ∀ u, u.Hosts sub app → R u → Q u) :
    Leg whole sub app lo' hi' rest Q start s visits t := by
  rcases hLeg with ⟨steps, stop, u, more, hVisits, hPath, hStop, hLines, hHosts, hHolds, hRun⟩
  refine ⟨steps, stop, u, more, hVisits, hPath, hStop, fun w hw => ?_, hHosts,
    hImplies u hHosts hHolds, hRun⟩
  have hBounds := hLines w hw
  omega

theorem after (hPath : Path (Draft.program whole sub) start s steps place u)
    (hLines : ∀ w ∈ steps, lo ≤ lineOf whole w.1 ∧ lineOf whole w.1 < hi)
    (hLeg : Leg whole sub app lo hi rest R place u more t) :
    Leg whole sub app lo hi rest R start s (steps ++ more) t := by
  rcases hLeg with ⟨steps', stop, v, more', rfl, hPath', hStop, hLines', hHosts, hHolds, hRun⟩
  refine ⟨steps ++ steps', stop, v, more', (List.append_assoc _ _ _).symm,
    hPath.append hPath', hStop, forall_mem_append.mpr ⟨hLines, hLines'⟩, hHosts, hHolds, hRun⟩

theorem next (hPath : Path (Draft.program whole sub) start s [(start, s)] place u)
    (hLow : lo ≤ lineOf whole start) (hHigh : lineOf whole start < hi)
    (hLeg : Leg whole sub app lo hi rest R place u more t) :
    Leg whole sub app lo hi rest R start s ((start, s) :: more) t := by
  refine after hPath (fun w hw => ?_) hLeg
  rw [mem_singleton.mp hw]
  exact ⟨hLow, hHigh⟩

theorem andThen (hLeg : Leg whole sub app lo hi rest R start s visits t)
    (hThen : ∀ place u more, SamePlace rest place → u.Hosts sub app → R u →
        more.length ≤ visits.length →
        Run (Draft.program whole sub) place u more (.ok ()) t →
        Leg whole sub app lo hi later Q place u more t) :
    Leg whole sub app lo hi later Q start s visits t := by
  rcases hLeg with ⟨steps, place, u, more, rfl, hPath, hPlace, hLines, hHosts, hHolds, hRun⟩
  have hShorter : more.length ≤ (steps ++ more).length := by
    rw [length_append]
    omega
  exact after hPath hLines (hThen place u more hPlace hHosts hHolds hShorter hRun)

end Leg

theorem run_command (hFits : Fits whole) (hWhole : whole = front ++ .command c :: rest)
    (hStart : SamePlace (.command c :: rest) start) (hHosts : s.Hosts sub app)
    (hRun : Run (Draft.program whole sub) start s visits (.ok ()) t) :
    ∃ place u more, visits = (start, s) :: more ∧
      effect (step whole sub c rest) s = (.ok place, u) ∧ u.Hosts sub app ∧
      Path (Draft.program whole sub) start s [(start, s)] place u ∧
      lineOf whole start = size front ∧
      Run (Draft.program whole sub) place u more (.ok ()) t := by
  have hHere : Draft.program whole sub start = some (step whole sub c rest) := hStart.program_eq rfl
  have hCommand : Item.command c ∈ whole := by
    rw [hWhole]
    exact mem_append_right _ mem_cons_self
  cases hRun with
  | done hEnd => exact absurd (hEnd.symm.trans hHere) (by simp)
  | next hAt hStep hRest =>
    rw [hHere] at hAt
    cases hAt
    have hLinked := linked_of_step hFits hCommand (by rintro r _ p ⟨⟩)
      (hHosts.linked (.entire []) rfl) hStep
    exact ⟨_, _, _, rfl, hStep, hLinked.holds.1,
      .next hHere hStep .here, hStart.lineOf_eq.trans (lineOf_eq hWhole), hRest⟩

---- Passing through code

/-
  Runs that come to their end pass through some code, wherever
  it stands in a draft, with a given effect.
-/
def Passes (whole : List Item) (sub : Nat) (app : Int) (code : List Item)
    (R : Node → Node → Prop) : Prop :=
  ∀ front rest start s visits t, whole = front ++ (code ++ rest) → SamePlace (code ++ rest) start →
    s.Hosts sub app → Run (Draft.program whole sub) start s visits (.ok ()) t →
    Leg whole sub app (size front) (size front + size code) rest (R s) start s visits t

namespace Passes
variable {R Q : Node → Node → Prop}

theorem mono (hPasses : Passes whole sub app code R)
    (hImplies : ∀ s u, s.Hosts sub app → u.Hosts sub app → R s u → Q s u) :
    Passes whole sub app code Q := by
  intro front rest start s visits t hWhole hStart hHosts hRun
  exact (hPasses front rest start s visits t hWhole hStart hHosts hRun).mono
    (Nat.le_refl _) (Nat.le_refl _) fun u hThere => hImplies s u hHosts hThere

protected theorem nil : Passes whole sub app [] fun s u => u = s :=
  fun _ _ _ _ _ _ _ hStart hHosts hRun => .here hStart hHosts rfl hRun

theorem append (hFirst : Passes whole sub app code R) (hThen : Passes whole sub app others Q) :
    Passes whole sub app (code ++ others) fun s u => ∃ m, m.Hosts sub app ∧ R s m ∧ Q m u := by
  intro front rest start s visits t hWhole hStart hHosts hRun
  rw [List.append_assoc] at hWhole hStart
  have hLeg := hFirst front (others ++ rest) start s visits t hWhole hStart hHosts hRun
  have hBehind : whole = (front ++ code) ++ (others ++ rest) := by
    rw [hWhole, List.append_assoc]
  refine (hLeg.mono (Nat.le_refl _) ?_ fun _ _ hHolds => hHolds).andThen ?_
  · rw [size_append]
    omega
  · intro place m more hPlace hThere hHolds _ hRest
    refine (hThen (front ++ code) rest place m more t hBehind hPlace hThere hRest).mono
      ?_ ?_ fun u _ hLater => ⟨m, hThere, hHolds, hLater⟩
    · rw [size_append]
      omega
    · simp only [size_append]
      omega

protected theorem command (hFits : Fits whole) (hOnward : forks? c.op c.inputs = none)
    (hUnlabelled : c.inputs.filterMap label? = [])
    (hEffect :
      ∀ s v u, s.Hosts sub app → effect (carryOut sub c.op c.inputs) s = (.ok v, u) → R s u) :
    Passes whole sub app [.command c] R := by
  intro front rest start s visits t hWhole hStart hHosts hRun
  rcases run_command hFits hWhole hStart hHosts hRun with
    ⟨place, u, more, rfl, hStep, hThere, hPath, hLine, hRest⟩
  rcases step_straight hOnward hStep with ⟨rfl, v, hCarry⟩
  rw [map_valued (filterMap_eq_nil_iff.mp hUnlabelled)] at hCarry
  have hSize : 0 < size [Item.command c] := Nat.succ_pos _
  exact (Leg.here rfl hThere (hEffect s v u hHosts hCarry) hRest).next hPath (by omega) (by omega)

theorem skip (hFits : Fits whole) (hResolves : Resolves whole)
    (hForks : forks? c.op c.inputs = some (compared, .label exit))
    (hUnlabelled : compared.filterMap label? = []) (hBody : Passes whole sub app code Q)
    (hSkip : ∀ s, s.Hosts sub app →
        effect (takenWith ofOperand sub c.op compared) s = (.ok true, s) → R s s)
    (hEnter : ∀ s u, s.Hosts sub app →
        effect (takenWith ofOperand sub c.op compared) s = (.ok false, s) → Q s u → R s u) :
    Passes whole sub app (.command c :: (code ++ [.label exit none])) R := by
  intro front rest start s visits t hWhole hStart hHosts hRun
  rw [cons_append, List.append_assoc, singleton_append] at hWhole hStart
  have hSizes : size (Item.command c :: (code ++ [.label exit none])) = c.size + size code := by
    rw [size, size_append]
    rfl
  rcases run_command hFits hWhole hStart hHosts hRun with
    ⟨place, u, more, rfl, hStep, hThere, hPath, hLine, hRest⟩
  rcases step_fork hForks hStep with ⟨rfl, taken, hTaken, hOn, hLeave⟩
  rw [map_valued (filterMap_eq_nil_iff.mp hUnlabelled)] at hTaken
  have hPositive : 0 < c.size := Nat.succ_pos _
  refine Leg.next hPath (by omega) (by omega) ?_
  cases taken with
  | true =>
    rcases hLeave rfl with ⟨name, ⟨⟩, hBehind⟩
    have hExit : whole = (front ++ .command c :: code) ++ (.label exit none :: rest) := by
      rw [hWhole]
      simp
    rw [hResolves exit none _ rest hExit] at hBehind
    cases hBehind
    exact .here rfl hThere (hSkip _ hThere hTaken) hRest
  | false =>
    cases hOn rfl
    have hInside : whole = (front ++ [.command c]) ++ (code ++ (.label exit none :: rest)) := by
      rw [hWhole]
      simp
    have hLeg := hBody _ _ _ _ more t hInside rfl hThere hRest
    rw [size_append] at hLeg
    simp only [size] at hLeg
    refine (hLeg.mono (by omega) (by omega) fun _ _ hHolds => hHolds).andThen ?_
    intro place v later hPlace hHosts' hHolds _ hRun'
    exact .here hPlace hHosts' (hEnter _ v hThere hTaken hHolds) hRun'

end Passes

---- Loops

theorem label?_reg (r : Reg) : label? (.reg r) = none := rfl

-- The commands of a loop.
def loopSet (r : Reg) (range : LoopRange) : Command :=
  .plain .set [.reg r, range.start] none

def loopTest (labels : LoopLabels) (r : Reg) (range : LoopRange) : Command :=
  .plain .beq [.reg r, range.stop, .label labels.exit] none

def loopStep (r : Reg) (range : LoopRange) : Command :=
  .plain .add [.reg r, .reg r, range.step] none

def loopJump (labels : LoopLabels) : Command :=
  .plain .jmp [.label labels.entry] none

-- The place at which each round starts.
def loopHead (labels : LoopLabels) (r : Reg) (range : LoopRange) (code rest : List Item) :
    List Item :=
  .command (loopTest labels r range) :: (code ++ (loopEnd labels r range ++ rest))

theorem loopItems_append (labels : LoopLabels) (r : Reg) (range : LoopRange) (code rest : List Item) :
    loopItems labels r range code ++ rest = .command (loopSet r range) ::
      .label labels.entry none :: loopHead labels r range code rest := by
  simp [loopItems, loopStart, loopHead, loopSet, loopTest, command]

theorem size_loopStart (labels : LoopLabels) (r : Reg) (range : LoopRange) :
    size (loopStart labels r range) = (loopSet r range).size + (loopTest labels r range).size :=
  rfl

theorem size_loopItems (labels : LoopLabels) (r : Reg) (range : LoopRange) (code : List Item) :
    size (loopItems labels r range code) = (loopSet r range).size +
      (loopTest labels r range).size + size code +
      ((loopStep r range).size + (loopJump labels).size) := by
  rw [loopItems, size_append, size_append]
  rfl

section Rounds

variable {start : List Item} {s t : Node} {visits : List (List Item × Node)}

variable (hFits : Fits whole) (hResolves : Resolves whole)
  (hWhole : whole = front ++ (loopItems labels r range code ++ rest))

include hFits hResolves hWhole

theorem run_test (hUnlabelled : label? range.stop = none)
    (hStart : SamePlace (loopHead labels r range code rest) start) (hHosts : s.Hosts sub app)
    (hRun : Run (Draft.program whole sub) start s visits (.ok ()) t) :
    ∃ taken place more, visits = (start, s) :: more ∧
      effect (takenWith ofOperand sub .beq [.reg r, range.stop]) s = (.ok taken, s) ∧
      Path (Draft.program whole sub) start s [(start, s)] place s ∧
      lineOf whole start = size front + (loopSet r range).size ∧
      Run (Draft.program whole sub) place s more (.ok ()) t ∧
      (taken = true → place = rest) ∧
      (taken = false → place = code ++ (loopEnd labels r range ++ rest)) := by
  rw [loopItems_append] at hWhole
  have hTest : whole = (front ++ [.command (loopSet r range), .label labels.entry none]) ++
      loopHead labels r range code rest := by
    rw [hWhole]
    simp
  rcases run_command hFits hTest hStart hHosts hRun with
    ⟨place, u, more, rfl, hStep, _, hPath, hLine, hRest⟩
  rcases step_fork rfl hStep with ⟨rfl, taken, hTaken, hOn, hLeave⟩
  have hValues : ∀ o ∈ [Operand.reg r, range.stop], label? o = none := by
    simp [label?_reg, hUnlabelled]
  rw [map_valued hValues] at hTaken
  rw [size_append] at hLine
  refine ⟨taken, place, more, rfl, hTaken, hPath, hLine, hRest, fun hYes => ?_, hOn⟩
  rcases hLeave hYes with ⟨_, ⟨⟩, hBehind⟩
  have hExit : whole = (front ++ loopStart labels r range ++ code ++
      (loopEnd labels r range).take 2) ++ (.label labels.exit none :: rest) := by
    rw [hWhole, loopHead]
    simp [loopStart, loopEnd, loopSet, loopTest, command]
  rw [hResolves labels.exit none _ rest hExit] at hBehind
  exact (Option.some.inj hBehind).symm

theorem run_step (hUnlabelled : label? range.step = none)
    (hStart : SamePlace (loopEnd labels r range ++ rest) start) (hHosts : s.Hosts sub app)
    (hRun : Run (Draft.program whole sub) start s visits (.ok ()) t) :
    ∃ v u middle more, visits = (start, s) :: (middle, u) :: more ∧
      effect (carryOut sub .add [.reg r, .reg r, range.step]) s = (.ok v, u) ∧
      u.Hosts sub app ∧
      Path (Draft.program whole sub) start s [(start, s), (middle, u)]
        (loopHead labels r range code rest) u ∧
      lineOf whole start =
        size front + (loopSet r range).size + (loopTest labels r range).size + size code ∧
      lineOf whole middle = lineOf whole start + (loopStep r range).size ∧
      Run (Draft.program whole sub) (loopHead labels r range code rest) u more (.ok ()) t := by
  have hStep : whole = (front ++ loopStart labels r range ++ code) ++
      .command (loopStep r range) :: ((loopEnd labels r range).tail ++ rest) := by
    rw [hWhole, loopItems]
    simp [loopEnd, loopStep, command]
  have hJump : whole = (front ++ loopStart labels r range ++ code ++ [.command (loopStep r range)]) ++
      .command (loopJump labels) :: (.label labels.exit none :: rest) := by
    rw [hStep]
    simp [loopEnd, loopJump, command]
  have hEntry : whole = (front ++ [.command (loopSet r range)]) ++
      (.label labels.entry none :: loopHead labels r range code rest) := by
    rw [hWhole, loopItems_append]
    simp
  rcases run_command hFits hStep hStart hHosts hRun with
    ⟨place, u, more, rfl, hAdded, hThere, hPath, hLine, hRest⟩
  rcases step_straight rfl hAdded with ⟨rfl, v, hCarry⟩
  have hValues : ∀ o ∈ (loopStep r range).inputs, label? o = none := by
    simp [loopStep, Command.plain, Command.inputs, label?_reg, hUnlabelled]
  rw [map_valued hValues] at hCarry
  rcases run_command hFits hJump rfl hThere hRest with
    ⟨place, w, later, rfl, hJumped, _, hPath', hLine', hRest'⟩
  rcases step_fork rfl hJumped with ⟨rfl, taken, hTaken, _, hLeave⟩
  have hAlways : taken = true := by
    rcases of_bind_ok hTaken with ⟨_, _, _, ⟨⟩⟩
    rfl
  rcases hLeave hAlways with ⟨_, ⟨⟩, hBehind⟩
  rw [hResolves labels.entry none _ _ hEntry] at hBehind
  cases hBehind
  simp only [size_append, size, size_loopStart] at hLine hLine'
  exact ⟨v, _, _, later, rfl, hCarry, hThere, hPath.append hPath', by omega, by omega, hRest'⟩

end Rounds

namespace Passes
variable {R Q : Node → Node → Prop}

-- A loop in a register. What holds between the state before it and the start of each round is kept
-- by every round; the induction is on the number of visits that are left.
theorem loop (hFits : Fits whole) (hResolves : Resolves whole) (hStart : label? range.start = none)
    (hStop : label? range.stop = none) (hStep : label? range.step = none)
    (hBody : Passes whole sub app code Q) (J : Node → Node → Prop)
    (hSet : ∀ s v u, s.Hosts sub app →
        effect (carryOut sub .set [.reg r, range.start]) s = (.ok v, u) → J s u)
    (hRound : ∀ s w x v y, J s w → w.Hosts sub app → x.Hosts sub app →
        effect (takenWith ofOperand sub .beq [.reg r, range.stop]) w = (.ok false, w) →
        Q w x → effect (carryOut sub .add [.reg r, .reg r, range.step]) x = (.ok v, y) → J s y)
    (hLeave : ∀ s w, J s w → w.Hosts sub app →
        effect (takenWith ofOperand sub .beq [.reg r, range.stop]) w = (.ok true, w) → R s w) :
    Passes whole sub app (loopItems labels r range code) R := by
  intro front rest start s visits t hWhole hPlace hHosts hRun
  have hSizes := size_loopItems labels r range code
  have hPositive : 0 < (loopTest labels r range).size ∧ 0 < (loopJump labels).size :=
    ⟨Nat.succ_pos _, Nat.succ_pos _⟩
  have hSplit := hWhole
  rw [loopItems_append] at hPlace hSplit
  rcases run_command hFits hSplit hPlace hHosts hRun with
    ⟨place, u, more, rfl, hFirst, hThere, hPath, hLine, hRest⟩
  rcases step_straight rfl hFirst with ⟨rfl, v, hCarry⟩
  have hValues : ∀ o ∈ (loopSet r range).inputs, label? o = none := by
    simp [loopSet, Command.plain, Command.inputs, label?_reg, hStart]
  rw [map_valued hValues] at hCarry
  refine Leg.next hPath (by omega) (by omega) ?_
  have hHead : ∀ place w visits, SamePlace (loopHead labels r range code rest) place →
      w.Hosts sub app → J s w → Run (Draft.program whole sub) place w visits (.ok ()) t →
      Leg whole sub app (size front) (size front + size (loopItems labels r range code)) rest
        (R s) place w visits t := by
    intro place w visits hHere hHosts hHolds hRun
    induction hLength : visits.length using Nat.strongRecOn generalizing place w visits with
    | ind n ih =>
      rcases run_test hFits hResolves hWhole hStop hHere hHosts hRun with
        ⟨taken, next, more, rfl, hTaken, hPath, hLine, hRest, hOut, hIn⟩
      refine Leg.next hPath (by omega) (by omega) ?_
      cases taken with
      | true =>
        cases hOut rfl
        exact .here rfl hHosts (hLeave s w hHolds hHosts hTaken) hRest
      | false =>
        have hInside : whole = (front ++ loopStart labels r range) ++
            (code ++ (loopEnd labels r range ++ rest)) := by
          rw [hWhole, loopItems]
          simp
        cases hIn rfl
        have hLeg := hBody _ _ _ w more t hInside rfl hHosts hRest
        rw [size_append, size_loopStart] at hLeg
        refine (hLeg.mono (by omega) (by omega) fun _ _ hBody => hBody).andThen ?_
        intro place x _ hPlace hHosts' hBody hShorter hRun'
        rcases run_step hFits hResolves hWhole hStep hPlace hHosts' hRun' with
          ⟨v, y, _, last, rfl, hAdd, hHosts'', hPath', _, _, hRest'⟩
        refine Leg.after hPath' ?_ (ih last.length ?_ _ y last rfl hHosts''
          (hRound s w x v y hHolds hHosts hHosts' hTaken hBody hAdd) hRest' rfl)
        · intro p hp
          rcases mem_cons.mp hp with rfl | hMiddle
          · dsimp only
            omega
          · rw [mem_singleton.mp hMiddle]
            dsimp only
            omega
        · simp only [length_cons] at hLength hShorter
          omega
  exact hHead _ u more rfl hThere (hSet s v u hHosts hCarry) hRest

end Passes

-- All branches of some code lead to labels of the code.
def Contained (code : List Item) : Prop :=
  ∀ c, Item.command c ∈ code → ∀ fork ∈ forks? c.op c.inputs,
    ∃ name, fork.2 = .label name ∧ label name none ∈ code

namespace Contained

protected theorem nil : Contained [] := by rintro c ⟨⟩

protected theorem append (hFirst : Contained code) (hThen : Contained others) :
    Contained (code ++ others) := by
  intro c hCommand fork hFork
  rcases mem_append.mp hCommand with hHere | hLater
  · rcases hFirst c hHere fork hFork with ⟨name, hName, hLabel⟩
    exact ⟨name, hName, mem_append_left _ hLabel⟩
  · rcases hThen c hLater fork hFork with ⟨name, hName, hLabel⟩
    exact ⟨name, hName, mem_append_right _ hLabel⟩

end Contained

theorem next_append (hNext : next items = some (c, later)) (rest : List Item) :
    next (items ++ rest) = some (c, later ++ rest) := by
  fun_induction next items with
  | case1 => cases hNext
  | case2 name line items ih => exact ih hNext
  | case3 c' items =>
    cases hNext
    rfl

theorem samePlace_of_next (hNext : next items = none) (rest : List Item) :
    SamePlace rest (items ++ rest) := by
  fun_induction next items with
  | case1 => rfl
  | case2 name line items ih => exact ih hNext
  | case3 c' items => cases hNext

theorem split_of_next (hNext : next items = some (c, later)) :
    ∃ labels, items = labels ++ .command c :: later ∧ size labels = 0 ∧
      SamePlace (.command c :: later) items := by
  fun_induction next items with
  | case1 => cases hNext
  | case2 name line items ih =>
    rcases ih hNext with ⟨labels, rfl, hSize, hPlace⟩
    exact ⟨.label name line :: labels, rfl, hSize, hPlace⟩
  | case3 c' items =>
    cases hNext
    exact ⟨[], rfl, rfl, rfl⟩

-- Code whose branches stay inside is passed from end to end. What every step of it does is then
-- true of the whole.
theorem Passes.contained (hFits : Fits whole) (hResolves : Resolves whole) {R : Node → Node → Prop}
    (hContained : Contained code) (hSame : ∀ s, R s s) (hTrans : ∀ s u v, R s u → R u v → R s v)
    (hStep : ∀ c, Item.command c ∈ code → ∀ rest place s u, Item.command c ∈ whole →
        s.Hosts sub app → effect (step whole sub c rest) s = (.ok place, u) → R s u) :
    Passes whole sub app code R := by
  intro front rest start s visits t hWhole hStart hHosts hRun
  have hInside : ∀ done left start u visits, code = done ++ left → SamePlace (left ++ rest) start →
      u.Hosts sub app → R s u → Run (Draft.program whole sub) start u visits (.ok ()) t →
      Leg whole sub app (size front) (size front + size code) rest (R s) start u visits t := by
    intro done left start u visits hLeft hPlace hThere hHolds hRun
    induction hLength : visits.length using Nat.strongRecOn
      generalizing done left start u visits with
    | ind n ih =>
      cases hNext : next left with
      | none => exact .here (hPlace.trans (samePlace_of_next hNext rest)) hThere hHolds hRun
      | some found =>
        rcases found with ⟨c, later⟩
        rcases split_of_next hNext with ⟨labels, rfl, hSize, _⟩
        have hHere : whole = (front ++ (done ++ labels)) ++ .command c :: (later ++ rest) := by
          rw [hWhole, hLeft]
          simp
        have hCommand : SamePlace (.command c :: (later ++ rest)) start := by
          rcases split_of_next (next_append hNext rest) with ⟨_, _, _, hSkipped⟩
          exact hPlace.trans hSkipped
        rcases run_command hFits hHere hCommand hThere hRun with
          ⟨place, v, more, rfl, hEffect, hHosts', hPath, hLine, hRest⟩
        have hMember : Item.command c ∈ code := by
          rw [hLeft]
          simp
        have hMember' : Item.command c ∈ whole := by
          rw [hHere]
          simp
        have hReach : R s v :=
          hTrans s u v hHolds (hStep c hMember _ place u v hMember' hThere hEffect)
        have hBounds := congrArg size hLeft
        simp only [size_append, size] at hBounds hLine
        have hPositive : 0 < c.size := Nat.succ_pos _
        refine Leg.next hPath (by omega) (by omega) ?_
        have hShorter : more.length < n := by
          rw [← hLength]
          exact Nat.lt_succ_self _
        have hOnward := ih more.length hShorter (done ++ labels ++ [.command c]) later _ v more
          (by rw [hLeft]; simp) rfl hHosts' hReach
        cases hForks : forks? c.op c.inputs with
        | none =>
          cases (step_straight hForks hEffect).1
          exact hOnward hRest rfl
        | some fork =>
          rcases fork with ⟨compared, target⟩
          rcases step_fork hForks hEffect with ⟨_, taken, _, hOn, hLeave⟩
          cases taken with
          | false =>
            cases hOn rfl
            exact hOnward hRest rfl
          | true =>
            rcases hLeave rfl with ⟨name, rfl, hBehind⟩
            rcases hContained c hMember _ hForks with ⟨name', ⟨⟩, hLabel⟩
            rcases append_of_mem hLabel with ⟨before, behind, hSplit⟩
            have hTarget : whole = (front ++ before) ++ (.label name none :: (behind ++ rest)) := by
              rw [hWhole, hSplit]
              simp
            rw [hResolves name none _ _ hTarget] at hBehind
            cases hBehind
            exact ih more.length hShorter (before ++ [.label name none]) behind _ v more
              (by rw [hSplit]; simp) rfl hHosts' hReach hRest rfl
  exact hInside [] code start s visits rfl hStart hHosts (hSame s) hRun

end QuantumNode.Draft
