import QuantumNode.Proofs.Flow.Following

/-
  Loops: a register counts from where the loop starts to where it stops, and the body is carried out
  once for each index. A draft that a flow is laid out in follows the reading of the flow, by
  induction on the layout.
-/

open List

namespace QuantumNode.Flow
variable {last later scope wider : List Reg} {inside : Node → Reading} {V : View}
open Draft Node Node.Linked Machine Assembly
variable {whole rest : List Item} {sub : Nat} {app : Int} {lines : List Nat}
variable {r : Reg}

---- Commands around the body

theorem step_set (v : Int) :
    Draft.step whole sub (.plain .set [.reg r, .int v] none) rest = (do
      let _ ← (do
        setReg (← appOf sub) r v
        return none : NodeM (Option Int))
      return rest) :=
  rfl

theorem step_add (v : Int) :
    Draft.step whole sub (.plain .add [.reg r, .reg r, .int v] none) rest = (do
      checkAll [v]
      let _ ← (do
        arithmetic ofOperand (← appOf sub) .add r (.reg r) (.int v) none
        return none : NodeM (Option Int))
      return rest) :=
  rfl

theorem step_beq (v : Int) (name : String) :
    Draft.step whole sub (.plain .beq [.reg r, .int v, .label name] none) rest = (do
      checkAll [v]
      if ← takenWith ofOperand sub .beq [.reg r, .int v] then goTo whole (.label name)
      else return rest) :=
  rfl

theorem step_jmp (name : String) :
    Draft.step whole sub (.plain .jmp [.label name] none) rest = (do
      if ← takenWith ofOperand sub .jmp [] then goTo whole (.label name)
      else return rest) :=
  rfl

-- The view in a round of a loop: its register holds the index.
def counting (scope : List Reg) (held : List (Reg × Int)) (r : Reg) (v : Int) : View :=
  view (r :: scope) ((r, v) :: held)

theorem view_weaker_counting (hWider : scope ⊆ wider)
    (held : List (Reg × Int)) (r : Reg) (v : Int) :
    (view scope held).Weaker (counting wider held r v) :=
  view_weaker (fun _ hr => mem_cons_of_mem _ (hWider hr)) (subset_cons_self _ _)

section Steps
variable {held : List (Reg × Int)}

theorem leads_setReg (v : Int)
    (hWeaker : (counting scope held r v).Weaker ((V.writing [r]).holding ((r, v) :: held)))
    (hKept : held ⊆ V.held) (hFree : ∀ p ∈ held, p.1 ≠ r) :
    LeadsTo (Linked sub app V)
      (fun _ place s t => place = rest ∧ Linked sub app (counting scope held r v) s t)
      (setReg app r v)
      (do
        let _ ← (do
          setReg app r v
          return none : NodeM (Option Int))
        return rest) := by
  nth_rewrite 1 [← bind_pure (setReg app r v)]
  rw [bind_assoc]
  refine (sim_setHeld hKept hFree v).andThen fun _ _ _ _ hRelated => ?_
  exact ⟨rfl, hRelated.2.mono hWeaker⟩

theorem leads_set (hFree : ∀ p ∈ held, p.1 ≠ r) (v : Int) :
    LeadsTo (Linked sub app (view scope held))
      (fun _ place s t => place = rest ∧ Linked sub app (counting scope held r v) s t)
      (setIndex sub r v)
      (Draft.step whole sub (.plain .set [.reg r, .int v] none) rest) := by
  have hWeaker : (counting scope held r v).Weaker
      (((view scope held).writing [r]).holding ((r, v) :: held)) := by
    refine ⟨fun q hLive => ?_, fun _ hr => hr, fun _ hp => hp⟩
    by_cases hSame : q = r
    · exact .inr (mem_singleton.mpr hSame)
    · exact .inl fun hBank => mem_of_ne_of_mem hSame (hLive hBank)
  rw [step_set, bind_assoc]
  refine LeadsTo.bind sim_appOf fun a b hApp => ?_
  rw [hApp.1, hApp.2]
  exact leads_setReg v hWeaker (fun _ hp => hp) hFree

theorem leads_add (hPlace : Registers.checkPlace r = .ok ()) (hFree : ∀ p ∈ held, p.1 ≠ r)
    (v step : Int) :
    LeadsTo (Linked sub app (counting scope held r v)) (fun _ place s t =>
        place = rest ∧ Linked sub app (counting scope held r (v + step)) s t)
      (do
        checkAll [step]
        setIndex sub r (v + step))
      (Draft.step whole sub (.plain .add [.reg r, .reg r, .int step] none) rest) := by
  rw [step_add]
  refine LeadsTo.bind (sim_blind (blind_checkAll _)) fun _ _ _ => ?_
  rw [bind_assoc]
  refine LeadsTo.bind sim_appOf fun a b hApp => ?_
  rw [hApp.1, hApp.2]
  refine LeadsTo.exchange (fun s t hLinked => ?_)
    (leads_setReg (v + step) ⟨fun q hLive => .inl hLive, fun _ hr => hr, fun _ hp => hp⟩
      (subset_cons_self _ _) hFree)
  have hIndex := effect_getReg_held hLinked hPlace mem_cons_self
  simp only [arithmetic, checkModulus, ofOperand, effect_bind, effect_lift, hIndex]
  rfl

theorem leads_test (hPlace : Registers.checkPlace r = .ok ())
    (hExit : behind exit whole = some behindLoop) (v stop : Int) :
    LeadsTo (Linked sub app (counting scope held r v)) (fun _ place s t =>
        place = (if v = stop then behindLoop else rest) ∧
          Linked sub app (counting scope held r v) s t) (checkAll [stop])
      (Draft.step whole sub (.plain .beq [.reg r, .int stop, .label exit] none) rest) := by
  have hUnit : checkAll [stop] = checkAll [stop] >>= pure := (bind_pure _).symm
  rw [step_beq]
  nth_rewrite 1 [hUnit]
  refine LeadsTo.bind (sim_blind (blind_checkAll _)) fun _ _ _ => ?_
  refine LeadsTo.exchange (z := pure (if v = stop then behindLoop else rest))
    (fun s t hLinked => ?_) fun s t hLinked => ⟨rfl, hLinked⟩
  have hIndex := effect_getReg_held hLinked hPlace mem_cons_self
  simp only [takenWith, effect_bind, effect_appOf hLinked.hosted_right, readAll, ofOperand,
    hIndex, Op.condition, Operand.number?]
  by_cases hStop : v = stop
  · subst hStop
    simp [goTo, hExit]
  · simp [hStop]

theorem leads_jmp (hEntry : behind entry whole = some place) :
    LeadsTo (Linked sub app V) (fun _ later s t => later = place ∧ Linked sub app V s t)
      (pure ⟨⟩ : NodeM Unit)
      (Draft.step whole sub (.plain .jmp [.label entry] none) rest) := by
  rw [step_jmp]
  refine LeadsTo.exchange (z := pure place) (fun s t hLinked => ?_)
    fun s t hLinked => ⟨rfl, hLinked⟩
  simp only [takenWith, effect_bind, effect_appOf hLinked.hosted_right, readAll, effect_pure,
    if_true, goTo, hEntry]

end Steps

---- Rounds

def roundEnd (labels : LoopLabels) (r : Reg) (rounds : Rounds) (behindLoop : List Item) : List Item :=
  loopEnd labels r rounds.range ++ behindLoop

def roundTest (labels : LoopLabels) (r : Reg) (rounds : Rounds) (body : List Item) : List Item :=
  command .beq [.reg r, .int rounds.stop, .label labels.exit] :: body

-- A loop in a draft: the places of its commands and where its labels lead.
structure LoopAt (whole : List Item) (lines : List Nat) (labels : LoopLabels) (r : Reg)
    (rounds : Rounds) (inner behindLoop : List Item) : Prop where
  set : lineOf whole (loopStart labels r rounds.range ++
      (inner ++ roundEnd labels r rounds behindLoop)) ∉ lines
  test : lineOf whole (roundTest labels r rounds
      (inner ++ roundEnd labels r rounds behindLoop)) ∉ lines
  add : lineOf whole (roundEnd labels r rounds behindLoop) ∉ lines
  jmp : lineOf whole (roundEnd labels r rounds behindLoop).tail ∉ lines
  entry : behind labels.entry whole = some (roundTest labels r rounds
      (inner ++ roundEnd labels r rounds behindLoop))
  exit : behind labels.exit whole = some behindLoop

namespace LoopAt

variable {rounds : Rounds} {labels : LoopLabels}
variable {inner behindLoop stop : List Item} {held : List (Reg × Int)}
variable {E : View} {s t : Node}

variable (hLoop : LoopAt whole lines labels r rounds inner behindLoop)
  (hPlace : Registers.checkPlace r = .ok ()) (hFree : ∀ p ∈ held, p.1 ≠ r)

include hLoop hPlace hFree
theorem goes_advance (hWeaker : ∀ v, E.Weaker (counting scope held r v))
    {k : Nat} {later : Unit → Node → Reading}
    (hThen : ∀ s' t', Linked sub app (counting scope held r (rounds.index (k + 1))) s' t' →
        Goes whole sub app lines E V (if rounds.index (k + 1) = rounds.stop then behindLoop
            else inner ++ roundEnd labels r rounds behindLoop)
          stop (later () s') t')
    (hLinked : Linked sub app (counting scope held r (rounds.index k)) s t) :
    Goes whole sub app lines E V (roundEnd labels r rounds behindLoop) stop
      (.after (advance sub r rounds k) later s) t := by
  have hNext : rounds.index (k + 1) = rounds.index k + rounds.step := by
    simp only [Rounds.index, Int.natCast_add, Int.add_mul]
    omega
  have hSplit : advance sub r rounds k = (do
      checkAll [rounds.step]
      setIndex sub r (rounds.index k + rounds.step)) >>= fun _ =>
        (pure ⟨⟩ : NodeM Unit) >>= fun _ => checkAll [rounds.stop] := by
    rw [advance, hNext, bind_assoc]
    rfl
  rw [hSplit, Reading.after_bind]
  refine Goes.after rfl hLoop.add (hWeaker _) (leads_add hPlace hFree _ _) ?_ hLinked
  rintro _ _ _ _ ⟨rfl, hAdded⟩
  rw [Reading.after_bind]
  refine Goes.after rfl hLoop.jmp (hWeaker _) (leads_jmp hLoop.entry) ?_ hAdded
  rintro _ _ _ _ ⟨rfl, hBack⟩
  refine Goes.after rfl hLoop.test (hWeaker _) (leads_test hPlace hLoop.exit _ _) ?_ hBack
  rintro _ _ s₃ t₃ ⟨rfl, hTested⟩
  rw [← hNext] at hTested ⊢
  exact hThen s₃ t₃ hTested

variable (hReaches : rounds.Reaches) (hLater : scope ⊆ later) (hLast : last ⊆ later)
  (hBody : ∀ v s' t', Linked sub app (counting scope held r v) s' t' →
      Goes whole sub app lines (counting scope held r v) (counting later held r v)
        (inner ++ roundEnd labels r rounds behindLoop)
        (roundEnd labels r rounds behindLoop) (inside s') t')

include hReaches hLater hLast hBody
-- The rounds that are left, by induction on how many they are. Registers taken in a round are in
-- scope from its end on, but not in the next round.
theorem goes_rounds (n k : Nat) (hCount : k + n = rounds.count) (hScope : scope ⊆ now)
    (hNow : n = 0 → last ⊆ now)
    (hLinked : Linked sub app (counting now held r (rounds.index k)) s t) :
    Goes whole sub app lines (view scope held) (view last held)
      (if n = 0 then behindLoop else inner ++ roundEnd labels r rounds behindLoop)
      behindLoop
      (.rounds (fun k s => (inside s).andThen (.after (advance sub r rounds k) fun _ => .still))
        n k s) t := by
  induction n generalizing k s t now with
  | zero => exact Goes.still (hLinked.mono (view_weaker_counting (hNow rfl) _ _ _)) rfl
  | succ n ih =>
    have hEnds : rounds.index (k + 1) = rounds.stop ↔ n = 0 :=
      (Rounds.index_eq_stop_iff hReaches (by omega)).trans (by omega)
    have hHere : Linked sub app (counting scope held r (rounds.index k)) s t :=
      hLinked.mono (view_weaker (cons_subset_cons r hScope) fun _ hp => hp)
    have hRound := (hBody _ s t hHere).mono (view_weaker_counting (fun _ hr => hr) _ _ _) (.refl _)
    refine (hRound.andThen fun _ hEnd => ?_).andThen fun _ hNext =>
      ih (k + 1) (by omega) hLater (fun _ => hLast) hNext
    refine hLoop.goes_advance hPlace hFree (view_weaker_counting hLater _ _) ?_ hEnd
    intro _ _ hLinked'
    simp only [hEnds]
    exact Goes.still hLinked' rfl

theorem goes (hNone : rounds.count = 0 → last ⊆ scope)
    (hLinked : Linked sub app (view scope held) s t) :
    Goes whole sub app lines (view scope held) (view last held)
      (loopStart labels r rounds.range ++
        (inner ++ roundEnd labels r rounds behindLoop))
      behindLoop
      (.after (enter sub r rounds) (fun _ => .rounds
          (fun k s => (inside s).andThen (.after (advance sub r rounds k) fun _ => .still))
          rounds.count 0) s) t := by
  have hStart : rounds.start = rounds.index 0 := by simp [Rounds.index]
  have hOnly : rounds.index 0 = rounds.stop ↔ rounds.count = 0 :=
    (Rounds.index_eq_stop_iff hReaches (Nat.zero_le _)).trans eq_comm
  rw [enter, Reading.after_bind]
  refine Goes.after rfl hLoop.set (.refl _) (leads_set hFree _) ?_ hLinked
  rintro _ _ _ _ ⟨rfl, hSet⟩
  rw [hStart] at hSet
  refine Goes.after rfl hLoop.test (view_weaker_counting (fun _ hr => hr) _ _ _)
    (leads_test hPlace hLoop.exit _ _) ?_ hSet
  rintro _ _ _ _ ⟨rfl, hTested⟩
  simp only [hOnly]
  exact hLoop.goes_rounds hPlace hFree hReaches hLater hLast hBody _ 0 (Nat.zero_add _)
    (fun _ hr => hr) hNone hTested

end LoopAt

---- Flows

open Draft Node Node.Linked Machine Assembly

def Resolves (whole : List Item) : Prop :=
  ∀ name line front rest,
    whole = front ++ (.label name line :: rest) → behind name whole = some rest

theorem taken_of_isSilent (hScoped : Scoped loops scope f) (hSilent : f.isSilent) :
    f.taken = [] := by
  induction f generalizing loops scope with
  | done => rfl
  | act x commands kept rest ih =>
    simp only [isSilent, Bool.and_eq_true, List.isEmpty_iff] at hSilent
    have hKept : kept = [] := by
      refine eq_nil_iff_forall_not_mem.mpr fun r hr => ?_
      have hWritten := hScoped.2.1 r hr
      rw [hSilent.1] at hWritten
      exact not_mem_nil hWritten
    rw [taken, ih hScoped.2.2 hSilent.2, hKept]
    rfl
  | when asBlock test body rest _ ih =>
    simp only [isSilent, Bool.and_eq_true] at hSilent
    exact ih hScoped.2.2 hSilent.2
  | loop rounds r body rest ihBody ihRest =>
    simp only [isSilent, Bool.and_eq_true] at hSilent
    rw [taken, ihRest hScoped.2.2 hSilent.2, ihBody hScoped.2.1 hSilent.1]
    simp [Rounds.leaving]

theorem loopAt_of_resolves {whole done inner behindLoop : List (Bool × Item)}
    (hResolves : Resolves (unmarked whole)) {labels : LoopLabels} {r : Reg} {rounds : Rounds}
    (hWhole : whole = done ++ (marked false (loopStart labels r rounds.range) ++
        (inner ++ (marked false (loopEnd labels r rounds.range) ++ behindLoop)))) :
    LoopAt (unmarked whole) (linesFrom 0 whole) labels r rounds (unmarked inner)
      (unmarked behindLoop) := by
  have hStart : ∀ n, whole = (done ++ (marked false (loopStart labels r rounds.range)).take n) ++
      ((marked false (loopStart labels r rounds.range)).drop n ++
        (inner ++ (marked false (loopEnd labels r rounds.range) ++ behindLoop))) := by
    intro n
    rw [hWhole, append_assoc, ← append_assoc (take n _), take_append_drop]
  have hEnd : ∀ n, whole = (done ++ marked false (loopStart labels r rounds.range) ++ inner ++
        (marked false (loopEnd labels r rounds.range)).take n) ++
      ((marked false (loopEnd labels r rounds.range)).drop n ++ behindLoop) := by
    intro n
    rw [append_assoc, ← append_assoc (take n _), take_append_drop, hWhole]
    simp
  have hSet := mt (lineOf_mem_iff (hStart 0) rfl).mp Bool.false_ne_true
  have hTest := mt (lineOf_mem_iff (hStart 2) rfl).mp Bool.false_ne_true
  have hAdd := mt (lineOf_mem_iff (hEnd 0) rfl).mp Bool.false_ne_true
  have hJump := mt (lineOf_mem_iff (hEnd 1) rfl).mp Bool.false_ne_true
  have hEntry := congrArg unmarked (hStart 1)
  have hExit := congrArg unmarked (hEnd 2)
  simp only [unmarked_append] at hSet hTest hAdd hJump hEntry hExit
  exact ⟨hSet, hTest, hAdd, hJump, hResolves labels.entry none _ _ hEntry,
    hResolves labels.exit none _ _ hExit⟩

-- From the first to the last item of a flow, a draft does what the flow reads. The registers of the
-- loops around it hold their indices throughout.
theorem Laid.goes {scope loops : List Reg} {f : Flow} {m whole done rest : List (Bool × Item)}
    (hLaid : Laid scope f m) (hFits : Fits (unmarked whole)) (hResolves : Resolves (unmarked whole))
    (hScoped : Scoped loops scope f) {held : List (Reg × Int)}
    (hLoops : held.map Prod.fst = loops) (hHeld : ∀ p ∈ held, p.1 ∈ scope)
    (hWhole : whole = done ++ (m ++ rest)) {s t : Node}
    (hLinked : Linked sub app (view scope held) s t) :
    Goes (unmarked whole) sub app (linesFrom 0 whole) (view scope held)
      (view (f.taken ++ scope) held) (unmarked (m ++ rest)) (unmarked rest)
      (f.read sub scope s) t := by
  induction hLaid generalizing loops held done rest s t with
  | done => exact Goes.still hLinked rfl
  | @act scope kept x commands later m _ ih =>
    rw [append_assoc] at hWhole ⊢
    have hFirst := goes_commands hFits hLoops hScoped.1 (fun _ hr => hr) hWhole hLinked
    have hKept : (view (kept ++ scope) held).Weaker
        (view ((commands.flatMap fun c => outputs c.op c.inputs) ++ scope) held) := by
      refine view_weaker (append_subset.mpr ⟨fun r hr => ?_, subset_append_right _ _⟩) (fun _ hp => hp)
      exact mem_append_left _ (hScoped.2.1 r hr)
    rw [unmarked_append, unmarked_marked, taken, append_assoc]
    refine (hFirst.mono (.refl _) hKept).andThen fun t' hLinked' => ?_
    have hRest := ih hScoped.2.2 hLoops (fun p hp => mem_append_right _ (hHeld p hp))
      (hWhole.trans (append_assoc ..).symm) hLinked'
    exact hRest.mono (view_weaker (subset_append_right _ _) (fun _ hp => hp)) (.refl _)
  | skipWhen hSilent _ ih =>
    simp only [read, hSilent]
    exact ih hScoped.2.2 hLoops hHeld hWhole hLinked
  | @skipLoop scope rounds r body later m hSilent _ ih =>
    have hNone : rounds.leaving r body.taken = [] := by
      rw [taken_of_isSilent hScoped.2.1 hSilent]
      simp [Rounds.leaving]
    have hLater := hScoped.2.2
    rw [hNone] at ih hLater
    simp only [read, hSilent, taken, hNone, append_nil]
    exact ih hLater hLoops hHeld hWhole hLinked
  | @when scope loaded asBlock test flipped body later loads os exit inner m hBody hFlip hForks
      hFetched _ _ ihBody ihRest =>
    simp only [append_assoc] at hWhole ⊢
    have hInside := hWhole.trans (append_assoc ..).symm
    have hBehind : whole = (done ++ marked false (loads ++ [branch flipped os exit]) ++ inner ++
        marked false [.label exit none]) ++ (m ++ rest) := by
      rw [hInside]
      simp only [append_assoc]
    have hExit : behind exit (unmarked whole) = some (unmarked (m ++ rest)) := by
      refine hResolves exit none
        (unmarked (done ++ marked false (loads ++ [branch flipped os exit]) ++ inner)) _ ?_
      rw [hInside]
      simp [unmarked, marked]
    have hWhen := goes_condition hFlip hForks hFetched hScoped.1 hHeld hWhole hExit
      (view_weaker (subset_append_right _ _) fun _ hp => hp)
      (fun s' t' hLinked' => ihBody hScoped.2.1 hLoops hHeld hInside hLinked') hLinked
    simp only [read, hBody]
    rw [unmarked_append, unmarked_marked, append_assoc]
    exact hWhen.andThen fun t' hLinked' => ihRest hScoped.2.2 hLoops hHeld hBehind hLinked'
  | @loop scope rounds r body later labels inner m hBody hStandard hFresh _ _ ihBody ihRest =>
    simp only [append_assoc] at hWhole ⊢
    have hInside := hWhole.trans (append_assoc ..).symm
    have hBehind : whole = (done ++ marked false (loopStart labels r rounds.range) ++ inner ++
        marked false (loopEnd labels r rounds.range)) ++ (m ++ rest) := by
      rw [hInside]
      simp only [append_assoc]
    have hFree : ∀ p ∈ held, p.1 ≠ r := by
      rintro p hp rfl
      exact hFresh (hHeld p hp)
    have hLoop := loopAt_of_resolves hResolves hWhole
    have hRound : ∀ v s' t', Linked sub app (counting scope held r v) s' t' →
        Goes (unmarked whole) sub app (linesFrom 0 whole) (counting scope held r v)
          (counting (body.taken.filter (· ≠ r) ++ scope) held r v)
          (unmarked inner ++ roundEnd labels r rounds (unmarked (m ++ rest)))
          (roundEnd labels r rounds (unmarked (m ++ rest)))
          (body.read sub (r :: scope) s') t' := by
      intro v s' t' hLinked'
      have hLoops' : ((r, v) :: held).map Prod.fst = r :: loops := congrArg (r :: ·) hLoops
      have hHeld' : ∀ p ∈ (r, v) :: held, p.1 ∈ r :: scope := by
        intro p hp
        rcases mem_cons.mp hp with rfl | hOld
        · exact mem_cons_self
        · exact mem_cons_of_mem _ (hHeld p hOld)
      have hGoes := ihBody hScoped.2.1 hLoops' hHeld' hInside hLinked'
      rw [unmarked_append] at hGoes
      refine hGoes.mono (.refl _) (view_weaker (fun q hq => ?_) fun _ hp => hp)
      simp only [mem_cons, mem_append, mem_filter] at hq ⊢
      rcases hq with hSame | hTaken | hOld
      · exact .inr (.inl hSame)
      · exact .inl hTaken.1
      · exact .inr (.inr hOld)
    have hLeaving :
        rounds.leaving r body.taken ++ scope ⊆ body.taken.filter (· ≠ r) ++ scope := by
      unfold Rounds.leaving
      split
      · exact subset_append_right _ _
      · exact fun _ hq => hq
    have hNone : rounds.count = 0 → rounds.leaving r body.taken ++ scope ⊆ scope := by
      intro hNone
      rw [Rounds.leaving, if_pos hNone]
      exact fun _ hq => hq
    simp only [read, hBody]
    rw [unmarked_append, unmarked_append, taken, append_assoc]
    refine (hLoop.goes (standard hStandard).2 hFree hScoped.1 (subset_append_right _ _)
      hLeaving hRound hNone hLinked).andThen fun t' hLinked' => ?_
    have hRest := ihRest hScoped.2.2 hLoops
      (fun p hp => mem_append_right _ (hHeld p hp)) hBehind hLinked'
    exact hRest.mono (view_weaker (subset_append_right _ _) fun _ hp => hp) (.refl _)

end QuantumNode.Flow
