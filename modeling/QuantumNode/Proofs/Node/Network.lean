import QuantumNode.Proofs.Node.Draining

/-
  What becomes of requests and responses while a node goes on: how requests are counted down, and
  how an error stays in the way of the responses behind it.
-/

open List

namespace QuantumNode.Node

---- Moves

def isError : NewResponse → Bool
  | .former r => r.tag = .err
  | _ => false

-- Neither requests nor pending responses differ.
structure SameNetwork (s t : Node) : Prop where
  queue : t.queue = s.queue
  pending : t.pending = s.pending
  id : t.id = s.id

-- What happens to requests: one is made, a response is stored for the first with its partner, or it
-- is counted and lost.
inductive Mark
  | asked (p : Partner) (task : PairTask)
  | stored (p : Partner)
  | lost (p : Partner)

-- What a node does with requests and responses. Those that are pending are tried up to the first
-- error. None is lost as long as everything is answered.
inductive Moves (s : Node) (answered : Bool) : List Mark → Node → Prop
  | still : Moves s answered [] s
  | aside {ms : List Mark} {t u : Node} :
      Moves s answered ms t → SameNetwork t u → Moves s answered ms u
  | asked {ms : List Mark} {t : Node} (p : Partner) (task : PairTask) :
      Moves s answered ms t → task.left = task.total →
      Moves s answered (ms ++ [.asked p task]) (t.withQueue p (t.queue p ++ [task]))
  | arrived {ms : List Mark} {t : Node} (r : NewResponse) :
      Moves s answered ms t → Moves s answered ms { t with pending := t.pending ++ [r] }
  | stored {ms : List Mark} {t u : Node} {p : Partner} {place : Nat} {r : Response} :
      Moves s answered ms t → t.pending[place]? = some (.former r) →
      (∀ x ∈ t.pending.take place, isError x = false) → partner? t.id r = some p →
      effect (handleOne place r) t = (.ok true, u) → Moves s answered (ms ++ [.stored p]) u
  | lost {ms : List Mark} {t : Node} {p : Partner} {place : Nat} {r : Response} {e : Fault}
      {units : Table Int Block} {used : List Int} {task : PairTask} {rest : List PairTask} :
      Moves s answered ms t → answered = false → partner? t.id r = some p →
      t.queue p = task :: rest → effect (handleOne place r) t = (.error e, t.taken p units used) →
      Moves s answered (ms ++ [.lost p]) (t.taken p units used)

variable {α : Type} {ok : Bool} {ms ms' : List Mark} {p q : Partner} {place : Nat}
  {r : Response} {s t u : Node} {sub : Nat} {x : NodeM α}

-- What is done later may be answered more strictly than it has to be.
theorem Moves.trans {answered : Bool} (hFirst : Moves s answered ms t) (hThen : Moves t ok ms' u)
    (hOnly : answered = true → ok = true) : Moves s answered (ms ++ ms') u := by
  induction hThen with
  | still => rwa [append_nil]
  | aside _ hSame ih => exact ih.aside hSame
  | asked p task _ hFresh ih => exact append_assoc .. ▸ ih.asked p task hFresh
  | arrived r _ ih => exact ih.arrived r
  | stored _ hAt hBefore hPartner hStored ih =>
    exact append_assoc .. ▸ ih.stored hAt hBefore hPartner hStored
  | lost _ hFalse hPartner hQueue hLost ih =>
    refine append_assoc .. ▸ ih.lost (Bool.eq_false_iff.mpr fun hTrue => ?_) hPartner hQueue hLost
    cases (hOnly hTrue).symm.trans hFalse

---- Operations

-- An operation makes moves from a state.
def Marks (x : NodeM α) (s : Node) : Prop := ∃ ms, Moves s (effect x s).1.isOk ms (effect x s).2

def Marked (x : NodeM α) : Prop := ∀ s, Marks x s

theorem Marks.bind (hFirst : Marks x s) (hThen : ∀ a, Marked (f a)) : Marks (x >>= f) s := by
  rcases hFirst with ⟨ms, hFirst⟩
  rw [Marks, effect_bind]
  rcases hEffect : effect x s with ⟨e | a, t⟩
  all_goals rw [hEffect] at hFirst
  · exact ⟨ms, hFirst⟩
  · rcases hThen a t with ⟨ms', hThen⟩
    exact ⟨ms ++ ms', (Moves.still.trans hFirst fun _ => rfl).trans hThen fun hOk => hOk⟩

theorem SameNetwork.of_effect (hEffect : effect x s = (answer, t)) (hSame : SameNetwork s t) :
    SameNetwork s (effect x s).2 := by
  rwa [hEffect]

namespace Marked

theorem aside (hSame : ∀ s, SameNetwork s (effect x s).2) : Marked x :=
  fun s => ⟨[], .aside .still (hSame s)⟩

protected theorem get (hThen : ∀ s, Marked (f s)) : Marked (get >>= f) := fun s => hThen s s

theorem plain : PlainRegisters Marked where
  pure _ _ := ⟨[], .still⟩
  throw _ _ := ⟨[], .still⟩
  lift _ _ := ⟨[], .still⟩
  bind hFirst hThen s := (hFirst s).bind hThen
  reads _ := Marked.get
  readsRegisters _ := Marked.get

theorem scans (hScans : Scans s place outcome)
    (hBefore : ∀ x ∈ s.pending.take place, isError x = false) :
    ∃ ms, Moves s outcome.1.isOk ms outcome.2 := by
  induction hScans with
  | held hHere hOne _ _ ih =>
    refine ih ?_
    rw [take_add_one, hHere, Option.toList_some, forall_mem_append, forall_mem_singleton]
    refine ⟨hBefore, decide_eq_false fun hError => ?_⟩
    cases (handleOne_error hError _ s).symm.trans hOne
  | @tried place r outcome hHere hOne hAnswer =>
    have hTried := handleOne_tried place r s
    rw [hOne] at hTried
    cases hTried with
    | held => exact absurd rfl hAnswer
    | lost => exact ⟨[], .aside .still ⟨rfl, rfl, rfl⟩⟩
    | unstored hPartner hQueue => exact ⟨_, .lost .still rfl hPartner hQueue hOne⟩
    | stored hPartner => exact ⟨_, .stored .still hHere hBefore hPartner hOne⟩
    | refused => exact ⟨[], .still⟩
  | _ => exact ⟨[], .still⟩

theorem drain : Marked drain := by
  have hRounds : ∀ rounds, Marked (drainFor rounds) := by
    intro rounds
    induction rounds with
    | zero => exact plain.pure _
    | succ rounds ih =>
      intro s
      have hFirst : Marks (handleFirst 0 s.pending) s :=
        scans (handleFirst_scans rfl) fun _ hNone => by cases hNone
      exact hFirst.bind fun _ => plain.ite ih (plain.pure _)
  exact plain.reads (fun _ _ => rfl) fun _ => hRounds _

theorem handleResponse (r : NewResponse) : Marked (handleResponse r) :=
  plain.bind (plain.received r) fun _ => plain.bind (fun _ => ⟨[], .arrived _ .still⟩) fun _ => drain

theorem ends : Ends Marked Marked where
  of hLooks := hLooks
  bind := plain.bind
  answer := plain.answer
  pushTask isCreator key task hFresh _ := ⟨_, .asked ⟨isCreator, key⟩ task .still hFresh⟩

theorem writes {c : Node → Checked α} {g : Node → α → Node} (hSame : ∀ s a, SameNetwork s (g s a)) :
    Marked (do
      let s ← get
      let a ← c s
      set (g s a) : NodeM PUnit) := by
  rw [setFrom_eq]
  exact Marked.get fun s => plain.bind (plain.lift (c s)) fun a => aside fun t => hSame t a

theorem grants
    (op : Op) (os : List Operand) : Grants Marked Marked (fun _ => True) sub op os where
  forApp hThen := plain.bind (plain.appOf sub) fun app => hThen app trivial
  emit _ := aside fun _ => ⟨rfl, rfl, rfl⟩
  setReg _ _ _ _ := plain.bind (plain.regsOf _) fun _ => Marked.get fun _ =>
    plain.bind (plain.lift _) fun _ => aside fun _ => ⟨rfl, rfl, rfl⟩
  nextOutcome _ := by
    rw [nextOutcome_eq]
    refine plain.reads (fun _ _ => rfl) fun s => ?_
    cases s.outcomes with
    | nil => exact plain.pure _
    | cons v rest => exact aside fun _ => ⟨rfl, rfl, rfl⟩
  allocate _ address := aside fun s => by
    rcases allocate_cases sub address none s with ⟨e, hSame⟩ | ⟨_, _, _, _, t, hDone, _, _, hShape, _⟩
    · exact .of_effect hSame ⟨rfl, rfl, rfl⟩
    · rw [hShape] at hDone
      exact .of_effect hDone ⟨rfl, rfl, rfl⟩
  free _ address := aside fun s => by
    rcases free_cases sub address s with ⟨e, hSame, _⟩ | ⟨_, _, _, _, _, _, _, hRelease⟩
    · exact .of_effect hSame ⟨rfl, rfl, rfl⟩
    · rw [hRelease, release_eq, effect_get_bind]
      split <;> exact ⟨rfl, rfl, rfl⟩
  writeEntry _ _ _ i _ := plain.bind (plain.evalIndex _ i) fun _ =>
    plain.bind (plain.arraysOf _) fun _ => writes fun _ _ => ⟨rfl, rfl, rfl⟩
  createArray _ _ _ o := plain.bind (plain.demandValue plain.ofRegister _ o) fun _ =>
    plain.bind (plain.arraysOf _) fun _ => writes fun _ _ => ⟨rfl, rfl, rfl⟩
  returnReg _ r _ _ _ v := aside fun s => by
    rcases returnReg_cases _ r v s with ⟨e, hSame⟩ | ⟨_, _, _, hDone⟩
    · exact .of_effect hSame ⟨rfl, rfl, rfl⟩
    · exact .of_effect hDone ⟨rfl, rfl, rfl⟩
  returnArray _ app _ a := aside fun s => by
    rcases returnArray_cases app a s with ⟨e, hSame⟩ | ⟨_, _, _, _, _, _, ⟨_, _, _, hHalf⟩ | hDone⟩
    · exact .of_effect hSame ⟨rfl, rfl, rfl⟩
    · exact .of_effect hHalf ⟨rfl, rfl, rfl⟩
    · exact .of_effect hDone ⟨rfl, rfl, rfl⟩
  waitUntil _ _ hReady := plain.waitUntil (plain.awaitNetwork drain fun r _ =>
    plain.bind (aside fun _ => ⟨rfl, rfl, rfl⟩) fun _ => handleResponse r) hReady

end Marked

---- Turns

/-
  What may happen next at a node: it is provided with something or has recorded something,
  applications come and go, subroutines start and end, an instruction is carried out, a response
  arrives, or those that wait are tried again.
-/
inductive Turn (s : Node) : Bool → Node → Prop
  | provided (arrivals : List NewResponse) (outcomes : List Int) (budget : Nat) (logger : Logger)
      (log : List LogEntry) (tracked : List (String × Int × Int)) :
      Turn s true { s with
        arrivals := arrivals, outcomes := outcomes, budget := budget, logger := logger
        log := log, tracked := tracked }
  | initApp (app maxQubits : Int) :
      Turn s (effect (initApp app maxQubits) s).1.isOk (effect (initApp app maxQubits) s).2
  | stopApp (app : Int) : Turn s (effect (stopApp app) s).1.isOk (effect (stopApp app) s).2
  | begun (r : Subroutine) : Turn s true (Activity.begun r s)
  | ended (sub : Nat) : Turn s true { s with subroutines := Table.erase sub s.subroutines }
  | deed (d : Deed) : Turn s (d.answers s) (d.after s)

theorem Marked.act (d : Deed) : Marked d.act := by
  cases d with
  | instr sub line i =>
    exact plain.answer (plain.execute ends (fun _ op os _ _ => grants op os) line)
  | arrive r => exact handleResponse r
  | retry => exact drain

theorem Turn.moves (hTurn : Turn s ok t) : ∃ ms, Moves s ok ms t := by
  cases hTurn with
  | initApp app maxQubits =>
    refine ⟨[], .aside .still ?_⟩
    simp only [Node.initApp, effect_bind, setUnit, effect_modify, effect_get]
    cases s.bank.create s.name (some app) <;> exact ⟨rfl, rfl, rfl⟩
  | stopApp app =>
    rcases stopApp_shape app s with ⟨_, _, _, _, _, hShape, _⟩
    rw [hShape]
    exact ⟨[], .aside .still ⟨rfl, rfl, rfl⟩⟩
  | deed d => exact Marked.act d s
  | _ => exact ⟨[], .aside .still ⟨rfl, rfl, rfl⟩⟩

-- A node goes on by turns, all of which are answered if that is demanded.
inductive Later (answered : Bool) (s : Node) : Node → Prop
  | now : Later answered s s
  | turn {ok : Bool} {t u : Node} :
      Later answered s t → Turn t ok u → (answered = true → ok = true) → Later answered s u

theorem Later.moves (hLater : Later ok s t) : ∃ ms, Moves s ok ms t := by
  induction hLater with
  | now => exact ⟨[], .still⟩
  | turn _ hTurn hOnly ih =>
    rcases ih with ⟨ms, hBefore⟩
    rcases hTurn.moves with ⟨ms', hMoves⟩
    exact ⟨ms ++ ms', hBefore.trans hMoves hOnly⟩

---- Requests

theorem queue_taken (p q : Partner) (units : Table Int Block) (used : List Int) (s : Node) :
    (s.taken p units used).queue q = if q = p then counted (s.queue p) else s.queue q := by
  split
  · rename_i hSame
    rw [hSame, taken, queue_withQueue_self]
  · rename_i hOther
    exact queue_withQueue_of_ne hOther

theorem handleOne_stored
    (hPartner : partner? s.id r = some p) (hStored : effect (handleOne place r) s = (.ok true, t)) :
    (∃ task rest, s.queue p = task :: rest) ∧ t.pending = s.pending.eraseIdx place ∧
      ∀ q, t.queue q = if q = p then counted (s.queue p) else s.queue q := by
  have hTried := handleOne_tried place r s
  rw [hStored] at hTried
  cases hTried with
  | stored hSame hQueue =>
    cases hPartner.symm.trans hSame
    exact ⟨⟨_, _, hQueue⟩, rfl, fun q => queue_taken p q _ _ s⟩

-- The request to a partner that is made.
def Mark.asks? (p : Partner) : Mark → Option PairTask
  | asked q task => if q = p then some task else none
  | _ => none

-- Whether a response from a partner is counted.
def Mark.takes (p : Partner) : Mark → Bool
  | asked _ _ => false
  | stored q => q = p
  | lost q => q = p

def requestsTo (p : Partner) (ms : List Mark) : List PairTask := ms.filterMap (Mark.asks? p)

def countedFrom (p : Partner) (ms : List Mark) : Nat := ms.countP (Mark.takes p)

/-
  The requests to a partner are those that were served and those in its queue, in order. All pairs
  that they are for were counted or are left. Only the first in the queue may have got some, and it
  has not got all of them.
-/
structure Tally (p : Partner) (ms : List Mark) (served ts : List PairTask) : Prop where
  made : requestsTo p ms = served ++ ts.map fun task => { task with left := task.total }
  conserved : leftOf (requestsTo p ms) = countedFrom p ms + leftOf ts
  positive : ∀ task ∈ served, 0 < task.total
  untouched : ∀ task ∈ ts.tail, task.left = task.total
  bounded : ∀ task ∈ ts, task.left ≤ task.total ∧ (0 < task.total → Counting task)

namespace Tally
variable {served ts : List PairTask} {task : PairTask} {m : Mark}

theorem leftOf_append (ts ts' : List PairTask) : leftOf (ts ++ ts') = leftOf ts + leftOf ts' := by
  induction ts with
  | nil => simp [leftOf]
  | cons task ts ih =>
    simp only [leftOf, cons_append, foldr_cons] at ih ⊢
    omega

variable (hTally : Tally p ms served ts)
include hTally
theorem asked
    (hFresh : task.left = task.total) : Tally p (ms ++ [.asked p task]) served (ts ++ [task]) := by
  rcases task with ⟨sub, results, qubits, total, left⟩
  obtain rfl : left = total := hFresh
  rcases hTally with ⟨hMade, hConserved, hPositive, hUntouched, hBounded⟩
  have hRequests : requestsTo p (ms ++ [.asked p ⟨sub, results, qubits, left, left⟩]) =
      requestsTo p ms ++ [⟨sub, results, qubits, left, left⟩] := by
    simp [requestsTo, Mark.asks?]
  refine ⟨?_, ?_, hPositive, ?_, ?_⟩
  · simp [hRequests, hMade]
  · rw [hRequests, leftOf_append, leftOf_append, hConserved]
    simp [countedFrom, Mark.takes, Int.add_assoc]
  · intro task hMem
    cases ts with
    | nil => cases hMem
    | cons first rest =>
      rcases mem_append.mp hMem with hMem | hMem
      · exact hUntouched task hMem
      · rw [mem_singleton.mp hMem]
  · rw [forall_mem_append, forall_mem_singleton]
    exact ⟨hBounded, Int.le_refl _, fun hSome => ⟨hSome, Int.le_refl _⟩⟩

-- A response is counted for the first request, which is served by the last of its pairs.
theorem counts (hTakes : m.takes p = true) (hSilent : m.asks? p = none) (hSome : ts ≠ []) :
    ∃ served, Tally p (ms ++ [m]) served (counted ts) := by
  rcases hTally with ⟨hMade, _, hPositive, hUntouched, hBounded⟩
  have hRequests : requestsTo p (ms ++ [m]) = requestsTo p ms := by simp [requestsTo, hSilent]
  have hCounted : countedFrom p (ms ++ [m]) = countedFrom p ms + 1 := by simp [countedFrom, hTakes]
  cases ts with
  | nil => exact absurd rfl hSome
  | cons task rest =>
    have hLeft : leftOf (requestsTo p (ms ++ [m])) =
        countedFrom p (ms ++ [m]) + leftOf (counted (task :: rest)) := by
      have hOne := leftOf_counted task rest
      rw [hRequests]
      omega
    rw [forall_mem_cons] at hBounded
    rw [counted] at hLeft ⊢
    split at hLeft
    · rename_i hLast
      rw [if_pos hLast]
      refine ⟨served ++ [{ task with left := task.total }], ?_, hLeft, ?_, ?_, hBounded.2⟩
      · rw [hRequests, hMade, append_assoc]
        rfl
      · rw [forall_mem_append, forall_mem_singleton]
        exact ⟨hPositive, by have := hBounded.1.1; dsimp only; omega⟩
      · exact fun task hMem => hUntouched task (mem_of_mem_tail hMem)
    · rename_i hMore
      rw [if_neg hMore]
      refine ⟨served, ?_, hLeft, hPositive, hUntouched, ?_⟩
      · rw [hRequests, hMade]
        rfl
      · rw [forall_mem_cons]
        refine ⟨?_, hBounded.2⟩
        have hFirst := hBounded.1
        unfold Counting at hFirst ⊢
        dsimp only
        omega

-- What concerns other partners is not counted.
theorem skips
    (hOther : m.takes p = false) (hSilent : m.asks? p = none) : Tally p (ms ++ [m]) served ts := by
  have hRequests : requestsTo p (ms ++ [m]) = requestsTo p ms := by simp [requestsTo, hSilent]
  have hCounted : countedFrom p (ms ++ [m]) = countedFrom p ms := by simp [countedFrom, hOther]
  exact { hTally with
    made := hRequests ▸ hTally.made
    conserved := hRequests ▸ hCounted ▸ hTally.conserved }

end Tally

theorem Moves.tally
    (hMoves : Moves s ok ms t) (hStart : s.queue p = []) : ∃ served, Tally p ms served (t.queue p) := by
  have hTake : ∀ {ms : List Mark} {m : Mark} {q : Partner} {t u : Node} {task rest},
      (∃ served, Tally p ms served (t.queue p)) → m.asks? p = none → m.takes p = decide (q = p) →
      t.queue q = task :: rest → u.queue p = (if p = q then counted (t.queue q) else t.queue p) →
      ∃ served, Tally p (ms ++ [m]) served (u.queue p) := by
    rintro ms m q t u task rest ⟨served, hTally⟩ hSilent hTakes hQueue hAfter
    rw [hAfter]
    split
    · rename_i hSame
      subst hSame
      exact hTally.counts (hTakes.trans (decide_eq_true rfl)) hSilent (hQueue ▸ cons_ne_nil _ _)
    · rename_i hOther
      exact ⟨served, hTally.skips (hTakes.trans (decide_eq_false (Ne.symm hOther))) hSilent⟩
  induction hMoves with
  | still =>
    rw [hStart]
    exact ⟨[], rfl, rfl, by simp, by simp, by simp⟩
  | aside _ hSame ih => rwa [hSame.queue]
  | asked q task _ hFresh ih =>
    rcases ih with ⟨served, hTally⟩
    by_cases hSame : p = q
    · subst hSame
      rw [queue_withQueue_self]
      exact ⟨served, hTally.asked hFresh⟩
    · rw [queue_withQueue_of_ne hSame]
      exact ⟨served, hTally.skips rfl (if_neg (Ne.symm hSame))⟩
  | arrived _ _ ih => exact ih
  | stored _ _ _ hPartner hStored ih =>
    rcases handleOne_stored hPartner hStored with ⟨⟨_, _, hQueue⟩, _, hAfter⟩
    exact hTake ih rfl rfl hQueue (hAfter p)
  | lost _ _ _ hQueue _ ih => exact hTake ih rfl rfl hQueue (queue_taken _ p _ _ _)

/-
  If all that happens is answered, each request is either served, by as many stored responses as it
  is for pairs, or it is in the queue of its partner. There it has at least one pair left, and at
  most all of them, unless it is for none.
-/
theorem requests_tallied {name : String} {id : Int} {flavour : Flavour} {hardware hasStack : Bool}
    (hLater : Later true (Node.fresh name id flavour hardware hasStack) t) :
    ∃ ms, Moves (Node.fresh name id flavour hardware hasStack) true ms t ∧
      ∀ p, ∃ served, Tally p ms served (t.queue p) := by
  rcases hLater.moves with ⟨ms, hMoves⟩
  refine ⟨ms, hMoves, fun p => hMoves.tally ?_⟩
  rcases p with ⟨isCreator, key⟩
  cases isCreator <;> rfl

-- A node without applications, and one whose first subroutine has started.
def vacant : Node := Node.fresh "alice" 0 .vanilla false true

def launched : Node := Activity.begun ⟨none, some 0, [], []⟩ (effect (initApp 0 1) vacant).2

-- A subroutine asks for some pairs that are measured at once.
def creating (number : Int) : List Deed :=
  [ loading ⟨.r, 0⟩ 20, .instr 0 1 (core .array [register .r 0, .addr 0]),
    .instr 0 2 (core .array [register .r 0, .addr 1]),
    loading ⟨.r, 1⟩ 1, .instr 0 3 (core .store [register .r 1, .entry 0 (.int 0)]),
    loading ⟨.r, 2⟩ number, .instr 0 4 (core .store [register .r 2, .entry 0 (.int 1)]),
    loading ⟨.r, 3⟩ 0,
    .instr 0 5 (core .createEpr
      [register .r 1, register .r 3, register .c 0, register .r 3, register .r 1]) ]

-- The response to the node that has asked for such a pair.
def measured : Response :=
  .measure ⟨.okMeasure, .int 0, .int 1, .int 0, .int 0, .int 0, .int 0, .int 1, .int 0, .int 0⟩

theorem later_deeds (hAnswered : answered (fun _ => true) ds launched = true) :
    Later true vacant (after ds launched) := by
  have hDeeds : ∀ (ds : List Deed) {s}, Later true vacant s → answered (fun _ => true) ds s = true →
      Later true vacant (after ds s) := by
    intro ds
    induction ds with
    | nil => exact fun hLater _ => hLater
    | cons d ds ih =>
      intro s hLater hAnswered
      rw [answered, Bool.and_eq_true] at hAnswered
      exact ih (hLater.turn (.deed d) fun _ => hAnswered.1) hAnswered.2
  refine hDeeds ds (.turn (.turn .now (.initApp 0 1) fun _ => ?_) (.begun _) fun _ => rfl) hAnswered
  decide +kernel

-- One of two pairs has come.
def halfway : Node := after (creating 2 ++ [.arrive (.former measured)]) launched

theorem requests_tallied_halfway :
    Later true vacant halfway ∧ halfway.queue ⟨true, 1, 0⟩ = [⟨0, 1, none, 2, 1⟩] ∧
      ∃ ms, Moves vacant true ms halfway ∧ ∀ p, ∃ served, Tally p ms served (halfway.queue p) := by
  have hLater : Later true vacant halfway := later_deeds (by decide +kernel)
  exact ⟨hLater, by decide +kernel, requests_tallied hLater⟩

-- A request for no pair takes the response to the one behind it.
theorem request_for_none_takes :
    ∃ t, Later true vacant t ∧ t.queue ⟨true, 1, 0⟩ = [⟨0, 1, none, 0, -1⟩, ⟨0, 1, none, 1, 1⟩] :=
  ⟨after (creating 0 ++ creating 1 ++ [.arrive (.former measured)]) launched,
    later_deeds (by decide +kernel), by decide +kernel⟩

---- Errors

-- An error stays where it is, and with it what is behind it.
theorem Moves.error_stays (hMoves : Moves s ok ms t)
    (hPending : s.pending = before ++ .former r :: behind) (hError : r.tag = .err) :
    ∃ rest more, rest.Sublist before ∧ t.pending = rest ++ .former r :: (behind ++ more) := by
  induction hMoves with
  | still => exact ⟨before, [], Sublist.refl _, by rw [hPending, append_nil]⟩
  | aside _ hSame ih => rwa [hSame.pending]
  | asked _ _ _ _ ih => rwa [withQueue_pending]
  | arrived x _ ih =>
    rcases ih with ⟨rest, more, hSublist, hHere⟩
    exact ⟨rest, more ++ [x], hSublist, by rw [hHere]; simp⟩
  | @stored _ t _ _ place _ _ hAt hBefore hPartner hStored ih =>
    rcases ih with ⟨rest, more, hSublist, hHere⟩
    have hPlace : t.pending[rest.length]? = some (.former r) := by simp [hHere]
    have hInside : place < rest.length := by
      rcases Nat.lt_trichotomy place rest.length with hInside | rfl | hBehind
      · exact hInside
      · cases hAt.symm.trans hPlace
        cases (handleOne_error hError _ t).symm.trans hStored
      · have hFails := hBefore (.former r) (mem_of_getElem?
          ((getElem?_take_of_lt hBehind).trans hPlace))
        exact absurd hError (of_decide_eq_false hFails)
    refine ⟨rest.eraseIdx place, more, (eraseIdx_sublist _ _).trans hSublist, ?_⟩
    rw [(handleOne_stored hPartner hStored).2.1, hHere, eraseIdx_append_of_lt_length hInside]
  | lost _ _ _ _ _ ih => rwa [taken, withQueue_pending]

section Errors
variable {before behind : List NewResponse} (hError : r.tag = .err)

-- Handling stops at an error, or at one of the responses before it that is refused.
inductive Stops (r : Response) (before : List NewResponse) (s : Node) : Fault → Prop
  | error : (∀ x ∈ before, ∃ r', x = .former r' ∧ Held s r') →
      Stops r before s (.node (.linkError r.text))
  | refused {f : Fault} {x : NewResponse} : x ∈ before →
      (∀ r', x = .former r' → ∃ place u, effect (handleOne place r') u = (.error f, s)) →
      Stops r before s f

include hError
theorem Scans.error (hScans : Scans s place outcome)
    (hPending : s.pending = before ++ .former r :: behind) (hPlace : place ≤ before.length)
    (hHeld : ∀ x ∈ before.take place, ∃ r', x = .former r' ∧ Held s r') :
    (∃ i < before.length, outcome.1 = .ok true ∧ outcome.2.pending = s.pending.eraseIdx i) ∨
      ∃ f, outcome.1 = .error f ∧ outcome.2.pending = s.pending ∧ Stops r before outcome.2 f := by
  have hAt : ∀ {place x}, place ≤ before.length → s.pending[place]? = some x →
      place = before.length ∧ x = .former r ∨ place < before.length ∧ before[place]? = some x := by
    intro place x hPlace hHere
    rw [hPending] at hHere
    rcases Nat.eq_or_lt_of_le hPlace with rfl | hInside
    · exact .inl ⟨rfl, by simpa using hHere.symm⟩
    · exact .inr ⟨hInside, by rwa [getElem?_append_left hInside] at hHere⟩
  induction hScans with
  | done hEnd =>
    rw [hPending, length_append, length_cons] at hEnd
    omega
  | held hHere hOne hWaits _ ih =>
    rcases hAt hPlace hHere with ⟨_, ⟨⟩⟩ | ⟨hInside, hHere⟩
    · cases (handleOne_error hError _ s).symm.trans hOne
    · refine ih hInside ?_
      rw [take_add_one, hHere, Option.toList_some, forall_mem_append, forall_mem_singleton]
      exact ⟨hHeld, _, rfl, hWaits⟩
  | @tried place r' outcome hHere hOne hAnswer =>
    rcases hAt hPlace hHere with ⟨rfl, ⟨⟩⟩ | ⟨hInside, hHere⟩
    · cases (handleOne_error hError _ s).symm.trans hOne
      exact .inr ⟨_, rfl, rfl, .error (by rwa [take_length] at hHeld)⟩
    · have hTried := handleOne_tried place r' s
      have hRefused : ∀ {f t}, outcome = (.error f, t) → t.pending = s.pending →
          ∃ f, outcome.1 = .error f ∧ outcome.2.pending = s.pending ∧ Stops r before outcome.2 f := by
        rintro f t rfl hSame
        refine ⟨f, rfl, hSame, .refused (mem_of_getElem? hHere) ?_⟩
        rintro _ ⟨⟩
        exact ⟨place, s, hOne⟩
      rw [hOne] at hTried
      cases hTried with
      | held => exact absurd rfl hAnswer
      | stored => exact .inl ⟨place, hInside, rfl, rfl⟩
      | unstored => exact .inr (hRefused rfl withQueue_pending)
      | _ => exact .inr (hRefused rfl rfl)
  | odd hHere hOther =>
    rcases hAt hPlace hHere with ⟨_, hSame⟩ | ⟨_, hHere⟩
    · exact absurd hSame (hOther r)
    · exact .inr ⟨_, rfl, rfl, .refused (mem_of_getElem? hHere)
        fun r' hSame => absurd hSame (hOther r')⟩

omit hError in
theorem drain_drains (s : Node) : Drains s (effect drain s) := drainFor_drains (Nat.le_refl _)

theorem Drains.error (hDrains : Drains s outcome)
    (hPending : s.pending = before ++ .former r :: behind) :
    ∃ f t rest, outcome = (.error f, t) ∧ rest.Sublist before ∧
      t.pending = rest ++ .former r :: behind ∧ Stops r rest t f := by
  have hFirst : ∀ {s : Node} {before : List NewResponse} {answer : Except Fault Bool} {t : Node},
      effect (handleFirst 0 s.pending) s = (answer, t) →
      s.pending = before ++ .former r :: behind →
      (∃ i < before.length, answer = .ok true ∧ t.pending = s.pending.eraseIdx i) ∨
        ∃ f, answer = .error f ∧ t.pending = s.pending ∧ Stops r before t f := by
    intro s before answer t hFirst hPending
    have hScans := @handleFirst_scans 0 s s.pending rfl
    rw [hFirst] at hScans
    exact hScans.error hError hPending (Nat.zero_le _) (by simp)
  induction hDrains generalizing before with
  | done hNone =>
    rcases hFirst hNone hPending with ⟨_, _, hTrue, _⟩ | ⟨_, hRefused, _⟩
    · cases hTrue
    · cases hRefused
  | refused hRefused =>
    rcases hFirst hRefused hPending with ⟨_, _, ⟨⟩, _⟩ | ⟨_, ⟨⟩, hSame, hStops⟩
    exact ⟨_, _, before, rfl, Sublist.refl _, hSame.trans hPending, hStops⟩
  | again hHandled _ ih =>
    rcases hFirst hHandled hPending with ⟨i, hInside, _, hErased⟩ | ⟨_, ⟨⟩, _⟩
    rw [hPending, eraseIdx_append_of_lt_length hInside] at hErased
    rcases ih hErased with ⟨f, u, rest, hRefused, hSublist, hRest⟩
    exact ⟨f, u, rest, hRefused, hSublist.trans (eraseIdx_sublist _ _), hRest⟩

end Errors

/-
  Once an error has come, it stays: whatever the node does later, no response behind the error is
  ever handled, and the arrival of any response is refused. Those before the error are still handled
  if they can be.
-/
theorem error_blocks {before behind : List NewResponse} (hLater : Later false s t)
    (hPending : s.pending = before ++ .former r :: behind) (hError : r.tag = .err) :
    ∃ rest more, rest.Sublist before ∧ t.pending = rest ++ .former r :: (behind ++ more) ∧
      (∀ x, ∃ f u, effect (handleResponse x) t = (.error f, u)) ∧
      ∃ f u kept, effect drain t = (.error f, u) ∧ kept.Sublist rest ∧
        u.pending = kept ++ .former r :: (behind ++ more) ∧ Stops r kept u f := by
  rcases hLater.moves with ⟨_, hMoves⟩
  rcases hMoves.error_stays hPending hError with ⟨rest, more, hSublist, hHere⟩
  refine ⟨rest, more, hSublist, hHere, fun x => ?_, (drain_drains t).error hError hHere⟩
  have hReads : Lax fun s t : Node => s = t := ⟨fun _ => rfl, Eq.trans⟩
  have hSame := hReads.plain.received x t
  rw [handleResponse, effect_bind]
  rcases hReceived : effect (received x) t with ⟨f | y, u⟩
  all_goals
    rw [hReceived] at hSame
    subst hSame
  · exact ⟨f, t, rfl⟩
  · have hMore : t.pending ++ [y] = rest ++ .former r :: (behind ++ more ++ [y]) := by simp [hHere]
    rcases (drain_drains { t with pending := t.pending ++ [y] }).error hError hMore with
      ⟨f, u, _, hRefused, _⟩
    exact ⟨f, u, hRefused⟩

def failure : Response := .error ⟨.err, .int 0, .int 1, .int 0, .int 0, .int 0, .int 0⟩

-- A pair was asked for, and an error has come.
def failing : Node := after (creating 1 ++ [.arrive (.former failure)]) launched

-- Then the pair has come, too.
def starved : Node := (Deed.arrive (.former measured)).after failing

theorem error_blocks_starved :
    Later false failing starved ∧ failing.pending = [] ++ .former failure :: [] ∧
      failure.tag = .err ∧ ∃ more, starved.pending = .former failure :: more ∧
        ∀ x, ∃ f u, effect (handleResponse x) starved = (.error f, u) := by
  have hLater : Later false failing starved := .turn .now (.deed _) (by rintro ⟨⟩)
  have hPending : failing.pending = [] ++ .former failure :: [] := by decide +kernel
  rcases error_blocks hLater hPending rfl with ⟨_, more, hNone, hStays, hRefused, _⟩
  rw [sublist_nil.mp hNone] at hStays
  exact ⟨hLater, hPending, rfl, more, hStays, hRefused⟩

-- Both arrivals are refused, and the pair is not stored for the request that waits for it.
theorem response_starved :
    Later true vacant (after (creating 1) launched) ∧
      (Deed.arrive (.former failure)).answers (after (creating 1) launched) = false ∧
      (Deed.arrive (.former measured)).answers failing = false ∧
      starved.pending = [.former failure, .former measured] ∧
      partner? starved.id measured = some ⟨true, 1, 0⟩ ∧
      starved.queue ⟨true, 1, 0⟩ = [⟨0, 1, none, 1, 1⟩] :=
  ⟨later_deeds (by decide +kernel), by decide +kernel⟩

end QuantumNode.Node
