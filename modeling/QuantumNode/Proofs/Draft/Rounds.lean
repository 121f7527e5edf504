import QuantumNode.Proofs.Draft.Passing

/-
  Runs in rounds: a run that comes to its end goes through some lines once for each index of a loop.
  What rounds of a draft do, its instructions do.
-/

open List

namespace QuantumNode
open Table
variable {c : Command} {address d n : Int} {front : List Item} {i line : Nat} {s' : Node}
  {A : Node → Node → Prop} {op : Op} {q : Reg}

open Node Machine Assembly Flow
variable {taken : Bool} {v : Int} {items : List Item} {hi lo : Nat} {s t : Node} {o p : Operand}
  {a : Option Int} {r : Reg}

---- Memory

def Node.entryAt (s : Node) (app address place : Int) : Option Int :=
  (get? app s.arrays).bind fun arrays =>
    (get? address arrays).bind fun n => ((s.heap.get n).readAt place).join

namespace Draft
variable {sub : Nat} {app : Int}
section Effects

def valueIn (s : Node) (app : Int) : Operand → Option Int
  | .reg r => s.registerOf app r
  | o => o.number?

-- A register gets a value, and nothing else changes.
def Sets (app : Int) (r : Reg) (v : Int) (s t : Node) : Prop :=
  ∃ regs, get? app s.registers = some regs ∧ t = Linked.withRegs app (put r (some v) regs) s

namespace Sets
variable (hSets : Sets app r v s t)
include hSets
theorem registerOf_self : t.registerOf app r = some v := by
  rcases hSets with ⟨_, _, rfl⟩
  simp [registerOf, Linked.withRegs]

theorem registerOf_of_ne (hOther : q ≠ r) : t.registerOf app q = s.registerOf app q := by
  rcases hSets with ⟨_, hRegs, rfl⟩
  simp [registerOf, Linked.withRegs, hRegs, Registers.value_put_of_ne hOther]

theorem entryAt_eq (address place : Int) :
    t.entryAt app address place = s.entryAt app address place := by
  rcases hSets with ⟨_, _, rfl⟩
  rfl

theorem events_eq : t.events = s.events := by
  rcases hSets with ⟨_, _, rfl⟩
  rfl

end Sets

theorem ofOperand_bind_ok {α : Type} {f : Option Int → NodeM α} {a : α}
    (hEffect : effect (ofOperand app o >>= f) s = (.ok a, t)) :
    effect (f (valueIn s app o)) s = (.ok a, t) := by
  rcases of_bind_ok hEffect with ⟨v, _, hRead, hLater⟩
  cases ofOperand_ok hRead
  cases o with
  | reg r =>
    cases (getReg_ok hRead).2
    exact hLater
  | _ =>
    simp only [ofOperand] at hRead
    split at hRead <;> cases hRead
    rename_i hNumber
    rw [← hNumber] at hLater
    exact hLater

theorem appOf_bind_ok (hHosts : s.Hosts sub app) {α : Type} {f : Int → NodeM α} {a : α}
    (hEffect : effect (appOf sub >>= f) s = (.ok a, t)) : effect (f app) s = (.ok a, t) := by
  rw [effect_bind, effect_appOf hHosts.subroutine] at hEffect
  exact hEffect

theorem carryOut_set (hHosts : s.Hosts sub app) {n : Operand} (hNumber : n.number? = some v)
    (hEffect : effect (carryOut sub .set [.reg r, n]) s = (.ok a, t)) : Sets app r v s t := by
  rcases of_lift_bind_ok (appOf_bind_ok hHosts hEffect) with ⟨w, hValue, hLater⟩
  rw [numberOf, hNumber] at hValue
  cases hValue
  rcases of_bind_ok hLater with ⟨_, _, hSet, ⟨⟩⟩
  exact setReg_ok hSet

theorem carryOut_add (hHosts : s.Hosts sub app) {out : Reg}
    (hEffect : effect (carryOut sub .add [.reg out, o, p]) s = (.ok a, t)) :
    ∃ x y, valueIn s app o = some x ∧ valueIn s app p = some y ∧ Sets app out (x + y) s t := by
  rcases of_bind_ok (appOf_bind_ok hHosts hEffect) with ⟨_, _, hSum, ⟨⟩⟩
  rcases of_lift_bind_ok hSum with ⟨_, _, hRead⟩
  have hStore := ofOperand_bind_ok (ofOperand_bind_ok hRead)
  split at hStore
  · rename_i x y hX hY
    rcases of_lift_bind_ok hStore with ⟨z, ⟨⟩, hSet⟩
    exact ⟨x, y, hX, hY, setReg_ok hSet⟩
  · cases hStore

theorem readPlace_ok (hEffect : effect (readPlace app address place) s = (.ok (some v), t)) :
    t = s ∧ s.entryAt app address place = some v := by
  rcases of_bind_ok hEffect with ⟨arrays, s₁, hArrays, hLater⟩
  rw [arraysOf, effect_get_bind] at hArrays
  split at hArrays <;> cases hArrays
  rename_i hFound
  rcases effect_lift_ok hLater with ⟨hRead, rfl⟩
  refine ⟨rfl, ?_⟩
  rw [Node.entryAt, hFound, Option.bind_some]
  rcases Checked.bind_ok hRead with ⟨_, _, hRest⟩
  split at hRest
  · cases hRest
  · rename_i hBlock
    split at hRest <;> cases hRest
    rename_i hEntry
    rw [hBlock, Option.bind_some, hEntry]
    rfl

theorem carryOut_load (hHosts : s.Hosts sub app)
    (hEffect : effect (carryOut sub .load [.reg r, .entry address (.reg q)]) s = (.ok a, t)) :
    ∃ place v, s.registerOf app q = some place ∧
      s.entryAt app address place = some v ∧ Sets app r v s t := by
  rcases of_bind_ok (appOf_bind_ok hHosts hEffect) with ⟨entry, s₁, hRead, hLater⟩
  rcases of_bind_ok hRead with ⟨place, s₂, hIndex, hPlace⟩
  rcases of_bind_ok hIndex with ⟨index, s₃, hReg, hIndex⟩
  rcases getReg_ok hReg with ⟨rfl, hValue⟩
  cases index with
  | none => cases hIndex
  | some index =>
    cases hIndex
    cases entry with
    | none => cases hLater
    | some v =>
      rcases readPlace_ok hPlace with ⟨rfl, hEntry⟩
      rcases of_bind_ok hLater with ⟨_, s₄, hSet, ⟨⟩⟩
      exact ⟨place, v, hValue.symm, hEntry, setReg_ok hSet⟩

theorem angleOf_ok (hAngle : Gate.angleOf (.int n) (.int d) = .ok angle) : angle = ⟨n, d⟩ := by
  rcases Checked.answer_ok hAngle with ⟨_, _, rfl⟩
  rfl

variable (hHosts : s.Hosts sub app)
include hHosts
-- A rotation is shown and changes nothing else.
theorem carryOut_rotation (hOp : op = .rotX ∨ op = .rotZ)
    (hEffect : effect (carryOut sub op [.reg q, .int n, .int d]) s = (.ok a, t)) :
    ∃ qubit, s.registerOf app q = some qubit ∧
      t = { s with events := s.events ++ [.rotation op qubit ⟨n, d⟩] } := by
  rw [carryOut_eq (by rcases hOp with rfl | rfl <;> decide)] at hEffect
  have hParts : performWith ofOperand sub .core op [.reg q, .int n, .int d] = (do
      let app ← appOf sub
      let address ← demandValue ofOperand app (.reg q)
      emit (.rotation op address (← Gate.angleOf (.int n) (.int d)))
      return none) := by
    rcases hOp with rfl | rfl <;> rfl
  rw [hParts] at hEffect
  rcases of_bind_ok (appOf_bind_ok hHosts hEffect) with ⟨qubit, _, hDemand, hLater⟩
  have hDemand := ofOperand_bind_ok hDemand
  split at hDemand <;> cases hDemand
  rename_i hValue
  rcases of_lift_bind_ok hLater with ⟨_, hAngle, hDone⟩
  cases angleOf_ok hAngle
  cases hDone
  exact ⟨qubit, hValue, rfl⟩

-- A test for equality, or for its opposite, compares values.
theorem takenWith_pair (test : Option Int → Option Int → Bool) (hJump : op ≠ .jmp)
    (hTest : ∀ x y, op.condition [x, y] = .ok (test x y))
    (hEffect : effect (takenWith ofOperand sub op [o, p]) s = (.ok taken, t)) :
    taken = test (valueIn s app o) (valueIn s app p) := by
  rcases of_bind_ok (appOf_bind_ok hHosts hEffect) with ⟨_, _, hRead, hLater⟩
  rcases of_bind_ok (ofOperand_bind_ok hRead) with ⟨_, _, hOthers, ⟨⟩⟩
  cases ofOperand_bind_ok hOthers
  rw [if_neg hJump] at hLater
  have hValue := (effect_lift_ok hLater).1
  rw [hTest] at hValue
  exact (Except.ok.inj hValue).symm

theorem takenWith_beq (hEffect : effect (takenWith ofOperand sub .beq [o, p]) s = (.ok taken, t)) :
    taken = (valueIn s app o == valueIn s app p) :=
  takenWith_pair hHosts (· == ·) (by decide) (fun _ _ => rfl) hEffect

theorem takenWith_bne (hEffect : effect (takenWith ofOperand sub .bne [o, p]) s = (.ok taken, t)) :
    taken = (valueIn s app o != valueIn s app p) :=
  takenWith_pair hHosts (· != ·) (by decide) (fun _ _ => rfl) hEffect

end Effects

end Draft

namespace Machine

/-
  A run that comes to its end in rounds: from one round to the next it stays outside of some lines,
  in each round it goes through them from the first one to the line behind the last one. Rounds are
  numbered; `A` says what is done between them and `B` what is done in them.
-/
inductive InRounds {κ : Type} (p : Machine κ) (line : κ → Int) (lo hi : Int)
    (A : Node → Node → Prop) (B : Nat → Node → Node → Prop) (n : Nat) : Nat → κ → Node → Node → Prop
  | last {k k' : κ} {s t : Node} {away : List (κ × Node)} : Path p k s away k' t → p k' = none →
      (∀ v ∈ away, line v.1 < lo ∨ hi ≤ line v.1) → A s t →
      InRounds p line lo hi A B n n k s t
  | round {i : Nat} {k k' k'' : κ} {s w x t : Node} {away steps : List (κ × Node)} :
      Path p k s away k' w →
      (∀ v ∈ away, line v.1 < lo ∨ hi ≤ line v.1) → A s w → line k' = lo →
      Path p k' w steps k'' x →
      (∀ v ∈ steps, lo ≤ line v.1 ∧ line v.1 < hi) → line k'' = hi → B i w x →
      InRounds p line lo hi A B n (i + 1) k'' x t →
      InRounds p line lo hi A B n i k s t

namespace InRounds
variable {κ : Type} {p : Machine κ} {line : κ → Int} {lo hi : Int}
variable {B : Nat → Node → Node → Prop}
variable {n : Nat} {k : κ}

theorem prepend (hTrans : ∀ s u v, A s u → A u v → A s v) (hPath : Path p k₀ s₀ away k s)
    (hOutside : ∀ v ∈ away, line v.1 < lo ∨ hi ≤ line v.1) (hBefore : A s₀ s)
    (hRounds : InRounds p line lo hi A B n i k s t) : InRounds p line lo hi A B n i k₀ s₀ t := by
  have hBoth : ∀ more : List (κ × Node), (∀ v ∈ more, line v.1 < lo ∨ hi ≤ line v.1) →
      ∀ v ∈ away ++ more, line v.1 < lo ∨ hi ≤ line v.1 :=
    fun _ hMore => forall_mem_append.mpr ⟨hOutside, hMore⟩
  cases hRounds with
  | last hPath' hEnd hAway hLast =>
    exact .last (hPath.append hPath') hEnd (hBoth _ hAway) (hTrans _ _ _ hBefore hLast)
  | round hPath' hAway hThen hFirst hSteps hInside hBehind hRound hRest =>
    exact .round (hPath.append hPath') (hBoth _ hAway) (hTrans _ _ _ hBefore hThen) hFirst
      hSteps hInside hBehind hRound hRest

theorem run (hRounds : InRounds p line lo hi A B n i k s t) :
    ∃ visits, Run p k s visits (.ok ()) t := by
  induction hRounds with
  | last hPath hEnd _ _ => exact ⟨_, hPath.run (.done hEnd)⟩
  | round hPath _ _ _ hSteps _ _ _ _ ih =>
    rcases ih with ⟨visits, hRun⟩
    exact ⟨_, hPath.run (hSteps.run hRun)⟩

end InRounds

end Machine

namespace Draft
variable {whole : List Item} {sub : Nat} {app : Int}

theorem path_of_tail {tail start : List Item} {visits : List (List Item × Node)}
    (hTail : Passes whole sub app tail A) (hWhole : whole = front ++ tail)
    (hStart : SamePlace tail start) (hHosts : s.Hosts sub app)
    (hRun : Run (Draft.program whole sub) start s visits (.ok ()) t) :
    ∃ steps stop, Path (Draft.program whole sub) start s steps stop t ∧
      Draft.program whole sub stop = none ∧ (∀ w ∈ steps, size front ≤ lineOf whole w.1) ∧
      A s t := by
  rcases hTail front [] start s visits t (by rw [append_nil]; exact hWhole)
      (by rw [append_nil]; exact hStart) hHosts hRun with
    ⟨steps, stop, u, _, _, hPath, hStop, hLines, _, hHolds, hEnds⟩
  have hEnd : Draft.program whole sub stop = none := by
    rw [Draft.program, hStop.next_eq]
    rfl
  cases hEnds with
  | done _ => exact ⟨steps, stop, hPath, hEnd, fun w hw => (hLines w hw).1, hHolds⟩
  | next hAt _ _ => exact absurd (hEnd.symm.trans hAt) (by simp)

-- One round of a loop that counts: from the start of its body to the start of the next round. The
-- code in the body is passed from its first line to the line behind it.
structure Round (whole : List Item) (sub : Nat) (app : Int) (lo hi : Nat) (A : Node → Node → Prop)
    (B : Nat → Node → Node → Prop) (r : Reg) (i : Nat) (start head : List Item) (w : Node)
    (visits : List (List Item × Node)) (t : Node) : Prop where
  parts : ∃ before k w' steps k' x after y more,
      Path (Draft.program whole sub) start w before k w' ∧
      (∀ v ∈ before, lineOf whole v.1 < lo) ∧ A w w' ∧ lineOf whole k = lo ∧
      Path (Draft.program whole sub) k w' steps k' x ∧
      (∀ v ∈ steps, lo ≤ lineOf whole v.1 ∧ lineOf whole v.1 < hi) ∧ lineOf whole k' = hi ∧
      B i w' x ∧
      Path (Draft.program whole sub) k' x after head y ∧
      (∀ v ∈ after, hi ≤ lineOf whole v.1) ∧ A x y ∧
      y.Hosts sub app ∧ y.registerOf app r = some (i + 1 : Nat) ∧
      more.length ≤ visits.length ∧ Run (Draft.program whole sub) head y more (.ok ()) t

section Loop
variable {B : Nat → Node → Node → Prop}
variable {labels : LoopLabels} {number : Int} {pre block post tail : List Item}
variable {start : List Item} {visits : List (List Item × Node)}

variable (hFits : Fits whole) (hResolves : Resolves whole)
  (hTrans : ∀ s u v, A s u → A u v → A s v)
  (hSets : ∀ r v s u, Sets app r v s u → A s u)
  (hPre : Passes whole sub app pre fun s u =>
      A s u ∧ ∀ v, s.registerOf app r = some v → u.registerOf app r = some v)
  (hBlock : Passes whole sub app block fun s u =>
      ∀ i : Nat, s.registerOf app r = some (i : Int) →
        B i s u ∧ u.registerOf app r = some (i : Int))
  (hPost : Passes whole sub app post fun s u =>
      A s u ∧ ∀ v, s.registerOf app r = some v → u.registerOf app r = some v)

include hFits hResolves hTrans hSets hPre hBlock hPost

theorem round_of_body
    (hWhole : whole = front ++
        (loopItems labels r (.upTo (.int number)) (pre ++ (block ++ post)) ++ tail))
    (hLow : lo = size front + size (loopStart labels r (.upTo (.int number))) + size pre)
    (hHigh : hi = lo + size block) (hHosts : s.Hosts sub app)
    (hIndex : s.registerOf app r = some (i : Int))
    (hRun : Run (Draft.program whole sub)
        (pre ++ (block ++ post) ++ (loopEnd labels r (.upTo (.int number)) ++ tail))
        s visits (.ok ()) t) :
    Round whole sub app lo hi A B r i
      (pre ++ (block ++ post) ++ (loopEnd labels r (.upTo (.int number)) ++ tail))
      (loopHead labels r (.upTo (.int number)) (pre ++ (block ++ post)) tail) s visits t := by
  let opening : List Item := loopStart labels r (.upTo (.int number))
  let closing : List Item := loopEnd labels r (.upTo (.int number)) ++ tail
  have hWhole₁ : whole = (front ++ opening) ++ (pre ++ (block ++ (post ++ closing))) := by
    rw [hWhole, loopItems]
    simp [opening, closing]
  have hWhole₂ : whole = (front ++ opening ++ pre) ++ (block ++ (post ++ closing)) := by
    rw [hWhole₁]
    simp
  have hWhole₃ : whole = (front ++ opening ++ pre ++ block) ++ (post ++ closing) := by
    rw [hWhole₂]
    simp
  have hPlace : pre ++ (block ++ post) ++ closing = pre ++ (block ++ (post ++ closing)) := by
    simp
  rcases hPre _ _ _ s visits t hWhole₁ (by rw [hPlace]; rfl) hHosts hRun with
    ⟨before, k, w', more₁, rfl, hPath₁, hStop₁, hLines₁, hHosts₁, ⟨hAway, hKept₁⟩, hRun₁⟩
  rcases hBlock _ _ k w' more₁ t hWhole₂ hStop₁ hHosts₁ hRun₁ with
    ⟨steps, k', x, more₂, rfl, hPath₂, hStop₂, hLines₂, hHosts₂, hRound, hRun₂⟩
  rcases hRound i (hKept₁ _ hIndex) with ⟨hDone, hKept₂⟩
  rcases hPost _ closing k' x more₂ t hWhole₃ hStop₂ hHosts₂ hRun₂ with
    ⟨after, k'', y, more₃, rfl, hPath₃, hStop₃, hLines₃, hHosts₃, ⟨hBack, hKept₃⟩, hRun₃⟩
  rcases run_step hFits hResolves hWhole rfl hStop₃ hHosts₃ hRun₃ with
    ⟨v, z, middle, more, rfl, hAdd, hHosts₄, hPath₄, hLine₁, hLine₂, hRun₄⟩
  rcases carryOut_add hHosts₃ hAdd with ⟨a, b, hA, hB, hSet⟩
  have hNext : z.registerOf app r = some ((i + 1 : Nat) : Int) := by
    have hSum := hSet.registerOf_self
    rw [valueIn, hKept₃ _ hKept₂] at hA
    cases hA
    cases hB
    rw [hSum]
    rfl
  rw [size_loopStart] at hLow
  simp only [size_append, opening, size_loopStart] at hLines₁ hLines₂ hLines₃ hLine₁
  refine ⟨before, k, w', steps, k', x, after ++ [(k'', y), (middle, z)], z, more, hPath₁,
    fun v hv => ?_, hAway, ?_, hPath₂, fun v hv => ?_, ?_, hDone, hPath₃.append hPath₄,
    fun v hv => ?_, hTrans _ _ _ hBack (hSets _ _ _ _ hSet), hHosts₄, hNext, ?_, hRun₄⟩
  · have hBounds := hLines₁ v hv
    omega
  · rw [hStop₁.lineOf_eq, lineOf_eq hWhole₂]
    simp only [size_append, opening, size_loopStart]
    omega
  · have hBounds := hLines₂ v hv
    omega
  · rw [hStop₂.lineOf_eq, lineOf_eq hWhole₃]
    simp only [size_append, opening, size_loopStart]
    omega
  · rcases mem_append.mp hv with hPassed | hLast
    · have hBounds := hLines₃ v hPassed
      omega
    · rcases mem_cons.mp hLast with rfl | hMiddle
      · dsimp only
        omega
      · rw [mem_singleton.mp hMiddle]
        dsimp only
        omega
  · simp only [length_append, length_cons]
    omega

-- A loop that counts to a number, with some code in its body. The code in front of it and behind it
-- keeps the index. The induction is on the visits that are left.
theorem inRounds_of_loop (hTail : Passes whole sub app tail A)
    (hWhole : whole = front ++
        (loopItems labels r (.upTo (.int number)) (pre ++ (block ++ post)) ++ tail))
    (hStart : SamePlace
        (loopItems labels r (.upTo (.int number)) (pre ++ (block ++ post)) ++ tail) start)
    (hHosts : s.Hosts sub app) (hRun : Run (Draft.program whole sub) start s visits (.ok ()) t)
    (hLow : lo = size front + size (loopStart labels r (.upTo (.int number))) + size pre)
    (hHigh : hi = lo + size block) :
    InRounds (Draft.program whole sub) (fun k => (lineOf whole k : Int)) lo hi A B
      number.toNat 0 start s t := by
  have hTotal := size_loopItems labels r (.upTo (.int number)) (pre ++ (block ++ post))
  have hFrom := hLow
  rw [size_loopStart] at hFrom
  simp only [size_append] at hTotal
  have hPositive : 0 < (loopTest labels r (.upTo (.int number))).size := Nat.succ_pos _
  -- from the start of a round on, the index says how many rounds there were
  have hHead : ∀ visits i place w,
      SamePlace (loopHead labels r (.upTo (.int number)) (pre ++ (block ++ post)) tail) place →
      w.Hosts sub app → w.registerOf app r = some ((i : Nat) : Int) →
      Run (Draft.program whole sub) place w visits (.ok ()) t →
      InRounds (Draft.program whole sub) (fun k => (lineOf whole k : Int)) lo hi A B
        number.toNat i place w t := by
    intro visits
    induction hLength : visits.length using Nat.strongRecOn generalizing visits with
    | ind m ih =>
      intro i place w hPlace hThere hIndex hRun
      rcases run_test hFits hResolves hWhole rfl hPlace hThere hRun with
        ⟨taken, _, more, rfl, hTaken, hPath, hLine, hOn, hLeave, hEnter⟩
      have hBefore : ∀ v ∈ [(place, w)],
          ((lineOf whole v.1 : Nat) : Int) < lo ∨ (hi : Int) ≤ lineOf whole v.1 := by
        intro v hv
        rw [mem_singleton.mp hv]
        dsimp only
        omega
      cases taken with
      | true =>
        cases hLeave rfl
        have hStop : (i : Int) = number := by
          have hEqual := beq_iff_eq.mp (takenWith_beq hThere hTaken).symm
          rw [valueIn, hIndex] at hEqual
          exact Option.some.inj hEqual
        rw [← List.append_assoc] at hWhole
        rcases path_of_tail hTail hWhole rfl hThere hOn with
          ⟨steps, _, hPath', hEnd, hLines, hLast⟩
        have hCount : number.toNat = i := by omega
        rw [hCount]
        refine .last (hPath.append hPath') hEnd (forall_mem_append.mpr ⟨hBefore, ?_⟩) hLast
        intro v hv
        have hBounds := hLines v hv
        rw [size_append] at hBounds
        omega
      | false =>
        cases hEnter rfl
        rcases (round_of_body hFits hResolves hTrans hSets hPre hBlock hPost hWhole hLow hHigh
            hThere hIndex hOn).parts with
          ⟨_, k, _, steps, _, x, _, y, later, hPath₁, hLines₁, hAway, hLo, hPath₂,
            hLines₂, hHi, hDone, hPath₃, hLines₃, hBack, hHosts', hNext, _, hRun'⟩
        have hRest := ih later.length (by simp only [length_cons] at hLength; omega)
          later rfl (i + 1) _ y rfl hHosts' hNext hRun'
        refine .round (hPath.append hPath₁) (forall_mem_append.mpr ⟨hBefore, ?_⟩) hAway ?_ hPath₂
          ?_ ?_ hDone (hRest.prepend hTrans hPath₃ ?_ hBack)
        · intro v hv
          have hBounds := hLines₁ v hv
          omega
        · exact congrArg Int.ofNat hLo
        · intro v hv
          have hBounds := hLines₂ v hv
          omega
        · exact congrArg Int.ofNat hHi
        · intro v hv
          have hBounds := hLines₃ v hv
          omega
  have hSplit := hWhole
  rw [loopItems_append] at hStart hSplit
  rcases run_command hFits hSplit hStart hHosts hRun with
    ⟨place, u, more, rfl, hFirst, hThere, hPath, hLine, hOn⟩
  rcases step_straight rfl hFirst with ⟨rfl, v, hCarry⟩
  have hSet : Sets app r 0 s u := carryOut_set hHosts rfl hCarry
  refine .prepend hTrans hPath ?_ (hSets _ _ _ _ hSet)
    (hHead more 0 _ u rfl hThere hSet.registerOf_self hOn)
  intro w hw
  rw [mem_singleton.mp hw]
  dsimp only
  omega

end Loop

end Draft

namespace Draft

theorem size_of_next_none (hNext : next items = none) : size items = 0 := by
  fun_induction next items with
  | case1 => rfl
  | case2 name line items ih => exact ih hNext
  | case3 c items => cases hNext

theorem lineOf_add_size_le (hItems : items = front ++ part) (hPlace : place <:+ items)
    (hNext : next place = some (c, later)) (hBefore : lineOf items place < size front) :
    lineOf items place + c.size ≤ size front := by
  rcases hPlace with ⟨_, hDone⟩
  rw [lineOf_eq hDone.symm] at hBefore ⊢
  rcases append_eq_append_iff.mp (hDone.trans hItems) with
    ⟨middle, hFront, hMiddle⟩ | ⟨middle, hFront, _⟩
  · rw [hFront, size_append] at hBefore ⊢
    cases hFound : next middle with
    | none =>
      have hEmpty := size_of_next_none hFound
      omega
    | some found =>
      rw [hMiddle, next_append hFound part] at hNext
      cases hNext
      rcases split_of_next hFound with ⟨_, hSplit, _⟩
      rw [hSplit, size_append, size]
      omega
  · rw [hFront, size_append] at hBefore
    omega

end Draft

namespace Assembly
open Draft
variable {rest : List Item} {sub : Nat} {app : Int}

-- Instructions follow the steps of a draft and stay within its commands.
theorem path_of_draft (hCoded : Coded items items is) (hPlain : AllPlain items)
    (hPath : Path (Draft.program items sub) rest s steps rest' s') (hAt : At items is rest line)
    (hLinked : Linked sub app (view items []) s t) :
    ∃ steps' n t', Path (Node.program sub is.toArray) line t steps' ((n : Nat) : Int) t' ∧
      At items is rest' n ∧ Linked sub app (view items []) s' t' ∧
      ∀ w ∈ steps', ∃ v ∈ steps, ∃ c later, v.1 <:+ items ∧ Draft.next v.1 = some (c, later) ∧
        (lineOf items v.1 : Int) ≤ w.1 ∧ w.1 < lineOf items v.1 + c.size := by
  induction hPath generalizing line t with
  | here => exact ⟨[], line, t, .here, hAt, hLinked, by rintro w ⟨⟩⟩
  | @next rest later rest' s s₁ s' x steps hHere hStep _ ih =>
    rcases Option.map_eq_some_iff.mp hHere with ⟨⟨c, after⟩, hNext, rfl⟩
    rcases hAt.next hNext with ⟨held, sets, os, family, hCommand⟩
    have hSim := step_sim hCoded hCommand (hPlain.command hCommand.mem) hLinked
    rw [hStep] at hSim
    rcases hSim with ⟨visits, n, t₁, hPath, hThere, hLinked₁, hOpens⟩
    rcases ih hThere hLinked₁ with ⟨steps', n', t', hPath', hAt', hLinked', hLines⟩
    refine ⟨visits ++ steps', n', t', hPath.append hPath', hAt', hLinked', ?_⟩
    intro w hw
    rcases mem_append.mp hw with hFirst | hLater
    · rcases hAt.split with ⟨done, _, _, hItems, _⟩
      refine ⟨(rest, s), mem_cons_self, c, after, ⟨done, hItems.symm⟩, hNext, ?_⟩
      rw [hAt.lineOf_eq]
      rcases hOpens with ⟨visits, rfl, hTail⟩
      have hPositive : 0 < c.size := Nat.succ_pos _
      rcases mem_cons.mp hFirst with rfl | hInside
      · omega
      · have hBounds := hTail w hInside
        omega
    · rcases hLines w hLater with ⟨v, hv, hRest⟩
      exact ⟨v, mem_cons_of_mem _ hv, hRest⟩

-- What a draft does in rounds, its instructions do in rounds between the same lines.
theorem inRounds_coded (hCoded : Coded items items is) (hPlain : AllPlain items)
    {A' : Node → Node → Prop} {B B' : Nat → Node → Node → Prop}
    (hBetween :
      ∀ w x w' x', Linked sub app (view items []) w w' → Linked sub app (view items []) x x' →
        A w x → A' w' x')
    (hAlike :
      ∀ i w x w' x', Linked sub app (view items []) w w' → Linked sub app (view items []) x x' →
        B i w x → B' i w' x')
    {n : Nat} (hLow : ∃ front part, items = front ++ part ∧ size front = lo)
    (hHigh : ∃ front part, items = front ++ part ∧ size front = hi)
    (hRounds :
      InRounds (Draft.program items sub) (fun k => (lineOf items k : Int)) lo hi A B n i rest s t)
    (hAt : At items is rest line) (hLinked : Linked sub app (view items []) s s') :
    ∃ t', InRounds (Node.program sub is.toArray) (fun l => l) lo hi A' B' n i line s' t' ∧
      Linked sub app (view items []) t t' := by
  rcases hLow with ⟨front, part, hFront, hLow⟩
  rcases hHigh with ⟨_, _, hFront', hHigh⟩
  have hOutside : ∀ (steps : List (List Item × Node)) (steps' : List (Int × Node)),
      (∀ v ∈ steps, (lineOf items v.1 : Int) < lo ∨ (hi : Int) ≤ lineOf items v.1) →
      (∀ w ∈ steps', ∃ v ∈ steps, ∃ c later, v.1 <:+ items ∧ Draft.next v.1 = some (c, later) ∧
        (lineOf items v.1 : Int) ≤ w.1 ∧ w.1 < lineOf items v.1 + c.size) →
      ∀ w ∈ steps', w.1 < (lo : Int) ∨ (hi : Int) ≤ w.1 := by
    intro steps steps' hAway hWithin w hw
    rcases hWithin w hw with ⟨v, hv, c, later, hSuffix, hNext, hFrom, hTo⟩
    rcases hAway v hv with hBefore | hBehind
    · have hEnds := lineOf_add_size_le hFront hSuffix hNext (by omega)
      omega
    · omega
  induction hRounds generalizing s' line with
  | @last rest k' s t away hPath hEnd hAway hLast =>
    rcases path_of_draft hCoded hPlain hPath hAt hLinked with
      ⟨steps', _, t', hPath', hAt', hLinked', hWithin⟩
    have hNext : Draft.next k' = none := by simpa [Draft.program] using hEnd
    exact ⟨t', .last hPath' (program_none (hAt'.finish hNext)) (hOutside _ _ hAway hWithin)
      (hBetween s t s' t' hLinked hLinked' hLast), hLinked'⟩
  | @round i rest k' k'' s w x t away steps hPath hAway hBefore hFirst hSteps hInside hBehind
      hRound _ ih =>
    rcases path_of_draft hCoded hPlain hPath hAt hLinked with
      ⟨_, _, w', hPath', hAt₁, hLinked₁, hWithin₁⟩
    rcases path_of_draft hCoded hPlain hSteps hAt₁ hLinked₁ with
      ⟨steps', _, x', hSteps', hAt₂, hLinked₂, hWithin₂⟩
    rcases ih hAt₂ hLinked₂ with ⟨t', hRest, hLinked'⟩
    rw [hAt₁.lineOf_eq] at hFirst
    rw [hAt₂.lineOf_eq] at hBehind
    refine ⟨t', .round hPath' (hOutside _ _ hAway hWithin₁)
      (hBetween s w s' w' hLinked hLinked₁ hBefore) hFirst hSteps' ?_ hBehind
      (hAlike i w x w' x' hLinked₁ hLinked₂ hRound) hRest, hLinked'⟩
    intro v' hv'
    rcases hWithin₂ v' hv' with ⟨v, hv, c, later, hSuffix, hNext, hFrom, hTo⟩
    have hBounds := hInside v hv
    have hEnds := lineOf_add_size_le hFront' hSuffix hNext (by omega)
    omega

end Assembly

end QuantumNode
