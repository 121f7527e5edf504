import QuantumNode.Proofs.Node.Refusal
import QuantumNode.Proofs.Node.Routing

/-
  Pending responses are tried in turn until none can be handled. A response that is refused may have
  been taken halfway.
-/

open List

namespace QuantumNode.Node
open Activity Table
variable {p : Partner} {place : Nat} {r : Response} {rest : List PairTask} {s t : Node}
  {task : PairTask}

---- One response

-- The virtual address for the next pair of a task.
def Aims (s : Node) (task : PairTask) (v : Int) : Prop :=
  ∃ app, s.appFor task.subroutine = some app ∧
    effect (virtualOf app task (task.total - task.left)) s = (.ok v, s)

-- An address has no place in the unit module of a task.
def Outside (s : Node) (task : PairTask) (v : Int) : Prop :=
  ∀ unit, s.unitFor task.subroutine = some unit → ¬ (0 ≤ v ∧ v < unit.length)

-- A response has to wait for a request, or until a virtual address is not in use.
def Held (s : Node) (r : Response) : Prop :=
  ∃ p, partner? s.id r = some p ∧ (s.queue p = [] ∨
      r.tag = .okKeep ∧ ∃ task rest v, s.queue p = task :: rest ∧ Aims s task v ∧
        s.inUse task.subroutine v = true)

def withUsed (qubit : Int) (s : Node) : Node :=
  { s with used := if s.used.contains qubit then s.used else s.used ++ [qubit] }

-- A pair with a partner is taken and counted, and not yet stored.
def taken (p : Partner) (units : Table Int Block) (used : List Int) (s : Node) : Node :=
  ({ s with units := units, used := used }).withQueue p (counted (s.queue p))

-- What accepting the next pair of a task comes to.
inductive Accepts (task : PairTask) (r : Response) (s : Node) : Except Fault Bool × Node → Prop
  | refused {e : Fault} : Accepts task r s (.error e, s)
  | held {v : Int} : r.tag = .okKeep → Aims s task v → s.inUse task.subroutine v = true →
      Accepts task r s (.ok false, s)
  | lost {e : Fault} {k : KeepOk} {v : Int} : r = .keep k → Aims s task v → Outside s task v →
      Accepts task r s (.error e, s.withUsed k.logicalQubit.number)
  | accepted {units : Table Int Block} {used : List Int} :
      (r.tag = .okMeasure → units = s.units ∧ used = s.used) →
      Accepts task r s (.ok true, { s with units := units, used := used })

theorem accept_accepts (task : PairTask) (r : Response) (s : Node) :
    Accepts task r s (effect (accept task (task.total - task.left) r) s) := by
  unfold accept
  split
  · rename_i hTag
    rcases appOf_cases task.subroutine s with ⟨e, hRefused, _⟩ | ⟨app, hFound, hOwner⟩
    · rw [acceptKeep, effect_bind, hRefused]
      exact .refused
    have hApp : s.appFor task.subroutine = some app := by rw [appFor, hOwner, Option.join_some]
    have hReads : Lax fun s t : Node => s = t := ⟨fun _ => rfl, Eq.trans⟩
    have hSame := hReads.plain.virtualOf app task (task.total - task.left) s
    rcases hVirtual : effect (virtualOf app task (task.total - task.left)) s with ⟨e | v, t⟩
    all_goals
      rw [hVirtual] at hSame
      subst hSame
      simp [acceptKeep, effect_bind, hFound, hVirtual]
    · exact .refused
    rw [effect_hasVirtual hApp]
    cases hUse : s.inUse task.subroutine v with
    | true => exact .held hTag ⟨app, hApp, hVirtual⟩ hUse
    | false =>
      cases r with
      | keep k =>
        change Accepts task (.keep k) s (effect (do
          let _ ← allocate task.subroutine v (some k.logicalQubit.number)
          return true) (s.withUsed k.logicalQubit.number))
        rw [effect_bind]
        rcases allocate_cases task.subroutine v (some k.logicalQubit.number)
          (s.withUsed k.logicalQubit.number) with
          ⟨e, hRefused⟩ | ⟨_, _, _, q, t, hDone, _, _, hShape, _⟩
        · rw [hRefused]
          refine .lost rfl ⟨app, hApp, hVirtual⟩ fun unit hUnit hInside => ?_
          have hEmpty : (unit[v.toNat]?).join = none := by
            simpa [inUse, hUnit, hInside.1] using hUse
          rw [unitFor, hApp] at hUnit
          rw [effect_allocate (s := s.withUsed k.logicalQubit.number) hApp hUnit hInside.1 hInside.2
            hEmpty] at hRefused
          cases hRefused
        · rw [hDone, hShape]
          refine .accepted fun hMeasure => ?_
          rw [hTag] at hMeasure
          cases hMeasure
      | _ => exact .refused
  · exact .accepted fun _ => ⟨rfl, rfl⟩
  all_goals exact .refused

theorem storeResult_cases (task : PairTask) (pair : Int) (r : Response) (s : Node) :
    (∃ e, effect (storeResult task pair r) s = (.error e, s)) ∨
      ∃ b block, effect (storeResult task pair r) s =
          (.ok ⟨⟩, { s with heap := s.heap.set b block }) ∧
        s.resultsOf task = some b ∧
        (s.heap.get b).writeSlice (.between (pair * resultFields) ((pair + 1) * resultFields))
          r.values = .ok block := by
  rcases appOf_cases task.subroutine s with ⟨e, hRefused, _⟩ | ⟨app, hFound, hApp⟩
  · exact .inl ⟨e, by rw [storeResult, effect_bind, hRefused]⟩
  simp only [storeResult, effect_bind, hFound, effect_get]
  split
  · exact .inl ⟨_, rfl⟩
  rcases arraysOf_cases app s with ⟨e, hRefused⟩ | ⟨arrays, hArrays, hTaken⟩
  · exact .inl ⟨e, by rw [writeSlice, effect_bind, hRefused]⟩
  simp only [writeSlice, effect_bind, hTaken, effect_get]
  cases hWrite : Arrays.writeSlice s.hardware s.heap arrays task.results
    (.between (pair * resultFields) ((pair + 1) * resultFields)) r.values with
  | error e => exact .inl ⟨e, rfl⟩
  | ok heap =>
    rcases Arrays.writeSlice_ok hWrite with ⟨b, block, hBlock, rfl, _, hRow⟩
    refine .inr ⟨b, block, rfl, ?_, hRow⟩
    simpa only [resultsOf, blockOf, appFor, hApp, Option.join_some, Option.bind_some, hArrays]
      using hBlock

-- What trying the response at a place comes to.
inductive Tried (place : Nat) (r : Response) (s : Node) : Except Fault Bool × Node → Prop
  | refused {e : Fault} : Tried place r s (.error e, s)
  | held : Held s r → Tried place r s (.ok false, s)
  | lost {p : Partner} {task : PairTask} {rest : List PairTask} {e : Fault} {k : KeepOk} {v : Int} :
      partner? s.id r = some p → s.queue p = task :: rest → r = .keep k → Aims s task v →
      Outside s task v → Tried place r s (.error e, s.withUsed k.logicalQubit.number)
  | unstored {p : Partner} {task : PairTask} {rest : List PairTask} {units : Table Int Block}
      {used : List Int} {e : Fault} :
      partner? s.id r = some p → s.queue p = task :: rest →
      (r.tag = .okMeasure → units = s.units ∧ used = s.used) →
      effect (storeResult task (task.total - task.left) r) (s.taken p units used) =
        (.error e, s.taken p units used) →
      Tried place r s (.error e, s.taken p units used)
  | stored {p : Partner} {task : PairTask} {rest : List PairTask} {units : Table Int Block}
      {used : List Int} {heap : Heap} :
      partner? s.id r = some p → s.queue p = task :: rest →
      effect (storeResult task (task.total - task.left) r) (s.taken p units used) =
        (.ok ⟨⟩, { s.taken p units used with heap := heap }) →
      Tried place r s (.ok true, { s.taken p units used with
        heap := heap, pending := s.pending.eraseIdx place })

theorem handleOne_tried (place : Nat) (r : Response) (s : Node) :
    Tried place r s (effect (handleOne place r) s) := by
  by_cases hError : r.tag = .err
  · simp only [handleOne, hError]
    exact .refused
  cases hPartner : partner? s.id r with
  | none =>
    have hRoute : r.route? = none := Option.map_eq_none_iff.mp hPartner
    simp only [handleOne, hError, Response.creator, hRoute]
    exact .refused
  | some p =>
    cases hQueue : s.queue p with
    | nil =>
      rw [handleOne_waits hError hPartner hQueue]
      exact .held ⟨p, hPartner, .inl hQueue⟩
    | cons task rest =>
      rw [handleOne_cons hError hPartner hQueue, effect_bind]
      have hAccepts := accept_accepts task r s
      generalize effect (accept task (task.total - task.left) r) s = outcome at hAccepts
      cases hAccepts with
      | refused => exact .refused
      | held hKeep hAims hUsed =>
        exact .held ⟨p, hPartner, .inr ⟨hKeep, task, rest, _, hQueue, hAims, hUsed⟩⟩
      | lost hKeep hAims hOutside => exact .lost hPartner hQueue hKeep hAims hOutside
      | @accepted units used hMeasure =>
        have hCount := effect_countPair (s := { s with units := units, used := used })
          (p := p) hQueue
        have hTaken : ({ s with units := units, used := used } : Node).withQueue p
            (counted (task :: rest)) = s.taken p units used := by rw [taken, hQueue]
        rw [hTaken] at hCount
        have hPending : (s.taken p units used).pending = s.pending := withQueue_pending
        dsimp only
        rw [if_neg (by simp), effect_bind, hCount]
        rcases storeResult_cases task (task.total - task.left) r (s.taken p units used) with
          ⟨e, hStore⟩ | ⟨b, _, hStore, _⟩
        all_goals
          dsimp only
          rw [effect_bind, hStore]
        · exact .unstored hPartner hQueue hMeasure hStore
        · simp only [hPending]
          exact .stored hPartner hQueue hStore

/-
  A response that is refused changes no array and stays pending. It leaves everything as it was, or
  its qubit counts as used although its address has no place, or its pair was taken and counted and
  could not be stored.
-/
theorem refused_response
    {e : Fault}
    (hRefused : effect (handleOne place r) s = (.error e, t)) :
    (t.heap = s.heap ∧ t.arrays = s.arrays ∧ t.bank = s.bank ∧ t.pending = s.pending) ∧ (t = s ∨
      (∃ p task rest k v, partner? s.id r = some p ∧ s.queue p = task :: rest ∧ r = .keep k ∧
        Aims s task v ∧ Outside s task v ∧ t = s.withUsed k.logicalQubit.number) ∨
      ∃ p task rest units used, partner? s.id r = some p ∧ s.queue p = task :: rest ∧
        (r.tag = .okMeasure → units = s.units ∧ used = s.used) ∧ t = s.taken p units used ∧
        effect (storeResult task (task.total - task.left) r) t = (.error e, t)) := by
  have hTried := handleOne_tried place r s
  rw [hRefused] at hTried
  cases hTried with
  | refused => exact ⟨⟨rfl, rfl, rfl, rfl⟩, .inl rfl⟩
  | lost hPartner hQueue hKeep hAims hOutside =>
    exact ⟨⟨rfl, rfl, rfl, rfl⟩,
      .inr (.inl ⟨_, _, _, _, _, hPartner, hQueue, hKeep, hAims, hOutside, rfl⟩)⟩
  | @unstored p _ _ units used _ hPartner hQueue hMeasure hStore =>
    refine ⟨?_, .inr (.inr ⟨_, _, _, _, _, hPartner, hQueue, hMeasure, rfl, hStore⟩)⟩
    rcases p with ⟨isCreator, _⟩
    cases isCreator <;> exact ⟨rfl, rfl, rfl, rfl⟩

-- The first application has gone on without its pair.
def impatient : Node := Activity.leaves (.run expecting) occupied

-- No results are stored for an application that has gone on.
theorem refused_response_impatient :
    ∃ e t, effect (handleOne 0 (measuredFrom 1 0)) impatient = (.error e, t) ∧
      t.heap = impatient.heap ∧ t.arrays = impatient.arrays := by
  rcases effect_refused (x := handleOne 0 (measuredFrom 1 0)) (s := impatient)
    (by decide +kernel) with ⟨e, hRefused⟩
  have hArrays := (refused_response hRefused).1
  exact ⟨e, _, hRefused, hArrays.1, hArrays.2.1⟩

-- Its pair is counted all the same.
theorem unstored_pair_counted :
    Reachable impatient ∧ (impatient.queue ⟨false, 1, 0⟩).length = 1 ∧
      ∃ e t, effect (handleOne 0 (measuredFrom 1 0)) impatient = (.error e, t) ∧
        t.queue ⟨false, 1, 0⟩ = [] := by
  rcases effect_refused (x := handleOne 0 (measuredFrom 1 0)) (s := impatient)
    (by decide +kernel) with ⟨e, hRefused⟩
  exact ⟨.after reachable_occupied (harmless_run idle_expecting), by decide +kernel, e, _, hRefused,
    by decide +kernel⟩

-- How many pairs tasks are still waiting for.
def leftOf (ts : List PairTask) : Int := ts.foldr (fun task n => task.left + n) 0

-- How many pairs the tasks with all partners are waiting for.
def leftIn (table : Table PairKey (List PairTask)) : Int :=
  table.foldr (fun entry n => leftOf entry.2 + n) 0

-- How many pairs a node has asked for or been asked for and has not got.
def outstanding (s : Node) : Int := leftIn s.createTasks + leftIn s.recvTasks

theorem leftOf_counted (task : PairTask) (rest : List PairTask) :
    leftOf (counted (task :: rest)) = leftOf (task :: rest) - 1 := by
  simp only [counted]
  split <;> simp only [leftOf, foldr_cons] <;> omega

theorem leftIn_put :
    leftIn (put key ts table) = leftIn table - leftOf ((get? key table).getD []) + leftOf ts := by
  fun_induction put key ts table with
  | case1 => simp [leftIn, leftOf, get?]
  | case2 =>
    simp only [get?, if_true, leftIn, foldr_cons, Option.getD_some]
    omega
  | case3 _ _ _ hKey ih =>
    simp only [get?, hKey, if_false, leftIn, foldr_cons] at ih ⊢
    omega

theorem outstanding_taken (hQueue : s.queue p = task :: rest)
    (units : Table Int Block) (used : List Int) :
    (s.taken p units used).outstanding = s.outstanding - 1 := by
  have hCounted := leftOf_counted task rest
  rcases p with ⟨⟨⟩, key⟩
  all_goals
    have hOld : (get? key (s.tasks _)).getD [] = task :: rest := hQueue
    simp only [tasks, Bool.false_eq_true, if_true, if_false] at hOld
    simp only [taken, withQueue, setTasks, tasks, outstanding, hQueue, leftIn_put, hOld,
      Bool.false_eq_true, if_true, if_false]
    omega

---- All pending responses

def Handles (s t : Node) : Prop :=
  ∃ place < s.pending.length, t.pending = s.pending.eraseIdx place ∧
    t.outstanding = s.outstanding - 1

-- No response from a place on can be handled.
def Settled (s : Node) (place : Nat) : Prop :=
  ∀ i x, place ≤ i → s.pending[i]? = some x →
    ∃ r, x = .former r ∧ Held s r ∧ effect (handleOne i r) s = (.ok false, s)

theorem handleOne_error (hError : r.tag = .err) (place : Nat) (s : Node) :
    effect (handleOne place r) s = (.error (.node (.linkError r.text)), s) := by
  simp only [handleOne, hError]
  rfl

-- Pending responses are tried from a place on, until one does not have to wait.
inductive Scans (s : Node) : Nat → Except Fault Bool × Node → Prop
  | done {place : Nat} : s.pending.length ≤ place → Scans s place (.ok false, s)
  | held {place : Nat} {r : Response} {outcome : Except Fault Bool × Node} :
      s.pending[place]? = some (.former r) → effect (handleOne place r) s = (.ok false, s) →
      Held s r → Scans s (place + 1) outcome → Scans s place outcome
  | tried {place : Nat} {r : Response} {outcome : Except Fault Bool × Node} :
      s.pending[place]? = some (.former r) → effect (handleOne place r) s = outcome →
      outcome.1 ≠ .ok false → Scans s place outcome
  | odd {place : Nat} {x : NewResponse} :
      s.pending[place]? = some x → (∀ r, x ≠ .former r) → Scans s place (.error .noAttribute, s)

theorem handleFirst_scans (hPending : s.pending.drop place = responses) :
    Scans s place (effect (handleFirst place responses) s) := by
  induction responses generalizing place with
  | nil => exact .done (drop_eq_nil_iff.mp hPending)
  | cons x rest ih =>
    have hHere : s.pending[place]? = some x := by rw [← head?_drop, hPending, head?_cons]
    have hRest : s.pending.drop (place + 1) = rest := by rw [← tail_drop, hPending, tail_cons]
    cases x with
    | former r =>
      have hTried := handleOne_tried place r s
      rw [handleFirst, effect_bind]
      rcases hOne : effect (handleOne place r) s with ⟨e | _, t⟩
      all_goals rw [hOne] at hTried
      · exact .tried hHere hOne (by rintro ⟨⟩)
      · cases hTried with
        | held hHeld => exact .held hHere hOne hHeld (ih hRest)
        | stored => exact .tried hHere hOne (by rintro ⟨⟩)
    | _ => exact .odd hHere (by rintro _ ⟨⟩)

theorem Scans.settles (hScans : Scans s place outcome) (hFirst : outcome = (.ok answer, t)) :
    (answer = false → t = s ∧ Settled s place) ∧ (answer = true → Handles s t) := by
  induction hScans with
  | done hEnd =>
    cases hFirst
    refine ⟨fun _ => ⟨rfl, fun i x hPlace hFound => ?_⟩, by rintro ⟨⟩⟩
    have hInside := (List.getElem?_eq_some_iff.mp hFound).1
    omega
  | held hHere hOne hHeld _ ih =>
    rcases ih hFirst with ⟨hNone, hSome⟩
    refine ⟨fun hFalse => ⟨(hNone hFalse).1, fun i x hPlace hFound => ?_⟩, hSome⟩
    rcases Nat.eq_or_lt_of_le hPlace with rfl | hBehind
    · cases hHere.symm.trans hFound
      exact ⟨_, rfl, hHeld, hOne⟩
    · exact (hNone hFalse).2 i x hBehind hFound
  | @tried place r _ hHere hOne hAnswer =>
    have hTried := handleOne_tried place r s
    rw [hOne, hFirst] at hTried
    cases hTried with
    | held => exact absurd (hFirst ▸ rfl) hAnswer
    | stored _ hQueue =>
      refine ⟨by rintro ⟨⟩, fun _ => ?_⟩
      exact ⟨place, (List.getElem?_eq_some_iff.mp hHere).1, rfl, outstanding_taken hQueue _ _⟩
  | odd => cases hFirst

-- Pending responses are tried from the first on, and again behind each that is handled.
inductive Drains : Node → Except Fault Unit × Node → Prop
  | done {s t : Node} : effect (handleFirst 0 s.pending) s = (.ok false, t) → Drains s (.ok ⟨⟩, t)
  | refused {s t : Node} {e : Fault} :
      effect (handleFirst 0 s.pending) s = (.error e, t) → Drains s (.error e, t)
  | again {s t : Node} {outcome : Except Fault Unit × Node} :
      effect (handleFirst 0 s.pending) s = (.ok true, t) → Drains t outcome → Drains s outcome

theorem drainFor_drains (hRounds : s.pending.length ≤ n) : Drains s (effect (drainFor n) s) := by
  induction n generalizing s with
  | zero =>
    have hNone : s.pending = [] := length_eq_zero_iff.mp (by omega)
    exact .done (by rw [hNone]; rfl)
  | succ n ih =>
    rw [drainFor, effect_get_bind, effect_bind]
    rcases hFirst : effect (handleFirst 0 s.pending) s with ⟨e | handled, t⟩
    · exact .refused hFirst
    · cases handled with
      | false => exact .done hFirst
      | true =>
        refine .again hFirst (ih ?_)
        rcases ((handleFirst_scans rfl).settles hFirst).2 rfl with ⟨_, hInside, hErased, _⟩
        rw [hErased, length_eraseIdx_of_lt hInside]
        omega

-- Every response that is handled brings one pair.
theorem Drains.settled (hDrains : Drains s outcome) (hDone : outcome = (.ok ⟨⟩, t)) :
    Settled t 0 ∧ t.pending.Sublist s.pending ∧
      (s.pending.length : Int) - t.pending.length = s.outstanding - t.outstanding := by
  induction hDrains with
  | done hFirst =>
    cases hDone
    rcases ((handleFirst_scans rfl).settles hFirst).1 rfl with ⟨rfl, hSettled⟩
    exact ⟨hSettled, Sublist.refl _, by omega⟩
  | refused _ => cases hDone
  | again hFirst _ ih =>
    rcases ih hDone with ⟨hSettled, hSublist, hCount⟩
    rcases ((handleFirst_scans rfl).settles hFirst).2 rfl with ⟨place, hInside, hErased, hOne⟩
    rw [hErased] at hSublist
    rw [hErased, length_eraseIdx_of_lt hInside] at hCount
    refine ⟨hSettled, hSublist.trans (eraseIdx_sublist _ _), ?_⟩
    omega

/-
  Trying the pending responses again and again comes to an end. If none was refused, each that is
  left waits for a request or for an address that is in use, and as many were handled as pairs are
  no longer to come.
-/
theorem drain_settles
    (s : Node) :
    Drains s (effect drain s) ∧ ∀ t, effect drain s = (.ok ⟨⟩, t) →
        Settled t 0 ∧ t.pending.Sublist s.pending ∧
          (s.pending.length : Int) - t.pending.length = s.outstanding - t.outstanding := by
  have hDrains : Drains s (effect drain s) := drainFor_drains (Nat.le_refl _)
  exact ⟨hDrains, fun t hDone => hDrains.settled hDone⟩

-- Two pairs have come where one was asked for.
def crowded : Node := { asking with pending := [.former (pairIn 7), .former (pairIn 8)] }

theorem drain_settles_crowded :
    ∃ t, effect drain crowded = (.ok ⟨⟩, t) ∧ Settled t 0 ∧ t.pending.length = 1 ∧
      t.outstanding = crowded.outstanding - 1 := by
  have hOk : (effect drain crowded).1.toOption.isSome = true := by decide +kernel
  have hLeft : (effect drain crowded).2.pending.length = 1 := by decide +kernel
  rcases hDrain : effect drain crowded with ⟨e | ⟨⟩, t⟩
  · rw [hDrain] at hOk
    cases hOk
  · simp only [hDrain] at hLeft
    rcases (drain_settles crowded).2 t hDrain with ⟨hSettled, _⟩
    have hCome : crowded.pending.length = 2 := rfl
    exact ⟨t, rfl, hSettled, hLeft, by omega⟩

end QuantumNode.Node
