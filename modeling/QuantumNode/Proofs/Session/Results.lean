import QuantumNode.Proofs.Node.Network
import QuantumNode.Proofs.Node.Writes
import QuantumNode.Proofs.Session.Frame

/-
  Results of pairs are read where they were stored. A node stores each response for a request in a
  row of the array of the request, and the futures that the host makes for a pair are for entries of
  the row of that pair. The futures of a slice are for the entries that it reads.
-/

open List

namespace QuantumNode
open Session

namespace Node
variable {n t : Node} {p : Partner} {task : PairTask} {rest : List PairTask} {r : Response}
  {rs : List Response} {pair place : Nat}

theorem rowOf_storeResult (hGranted : r.Granted)
    (hStore : effect (storeResult task pair r) n = (.ok ⟨⟩, t)) (other : Nat) :
    t.rowOf task other = if other = pair then some r.values else n.rowOf task other := by
  rcases storeResult_cases task pair r n with ⟨e, hRefused⟩ | ⟨b, _, hDone, hBlock, hRow⟩
  · cases hRefused.symm.trans hStore
  · cases hDone.symm.trans hStore
    have hLength := hGranted.length_values
    rw [hGranted.rowSlice_eq] at hRow
    have hInside := Block.inside_of_writeSlice (by rw [hLength]; decide) hRow
    cases (Block.writeSlice_between hInside).symm.trans hRow
    have hSame : SameApps n { n with
        heap := n.heap.set b ((n.heap.get b).replaced (resultFields * pair) r.values) } :=
      ⟨rfl, rfl, rfl, rfl, fun _ => rfl⟩
    exact rowOf_replaced hSame hBlock hLength (hLength ▸ hInside) rfl other

theorem rowOf_handleOne (hGranted : r.Granted) (hQueue : n.queue p = task :: rest)
    (hPartner : partner? n.id r = some p) (hPair : task.total - task.left = pair)
    (hStored : effect (handleOne place r) n = (.ok true, t)) (other : Nat) :
    t.rowOf task other = if other = pair then some r.values else n.rowOf task other := by
  have hTried := handleOne_tried place r n
  rw [hStored] at hTried
  cases hTried with
  | @stored p' _ _ units used heap hSame hFirst hStore =>
    cases hPartner.symm.trans hSame
    cases hQueue.symm.trans hFirst
    rw [hPair] at hStore
    have hTaken : (n.taken p units used).rowOf task other = n.rowOf task other := by
      unfold rowOf taken
      rw [withQueue_sameApps.blockOf_eq, withQueue_heap]
      rfl
    rw [← hTaken]
    exact rowOf_storeResult hGranted hStore other

/-
  Responses that are handled one after the other for the request that a partner serves. In between
  anything may happen that changes neither what is expected of the partner nor what is stored for
  the request.
-/
inductive Fills (p : Partner) (task : PairTask) (n : Node) : List Response → Node → Prop
  | start : Fills p task n [] n
  | aside {rs : List Response} {t u : Node} :
      Fills p task n rs t → u.queue p = t.queue p → u.rowOf task = t.rowOf task →
      Fills p task n rs u
  | stored {rs : List Response} {t u : Node} {place : Nat} {r : Response} :
      Fills p task n rs t → r.Granted → partner? t.id r = some p →
      effect (handleOne place r) t = (.ok true, u) → Fills p task n (rs ++ [r]) u

namespace Fills

theorem granted (hFills : Fills p task n rs t) : ∀ r ∈ rs, r.Granted := by
  induction hFills with
  | start => simp
  | aside _ _ _ ih => exact ih
  | stored _ hGranted _ _ ih => simpa [or_imp, forall_and] using ⟨ih, hGranted⟩

-- The request is served until all its pairs are stored, each in its row.
theorem rows (hFills : Fills p task n rs t) (hQueue : n.queue p = task :: rest)
    (hFresh : task.left = task.total) (hFew : rs.length ≤ task.total) :
    (rs.length < task.total → t.queue p = { task with left := task.total - rs.length } :: rest) ∧
      ∀ i r, rs[i]? = some r → t.rowOf task i = some r.values := by
  induction hFills with
  | start =>
    have hWhole : { task with left := task.total } = task := by
      rcases task with ⟨_, _, _, _, left⟩
      cases hFresh
      rfl
    refine ⟨fun _ => ?_, by simp⟩
    rw [hQueue, length_nil, Int.natCast_zero, Int.sub_zero, hWhole]
  | aside _ hSame hRows ih =>
    rw [hSame, hRows]
    exact ih hFew
  | @stored rs t u place r _ hGranted hPartner hStored ih =>
    rw [length_append, length_singleton] at hFew ⊢
    rcases ih (by omega) with ⟨hServed, hRows⟩
    have hHere := hServed (by omega)
    have hRow : ∀ i, u.rowOf task i = _ := fun i =>
      rowOf_handleOne hGranted hHere hPartner (Int.sub_sub_self task.total rs.length) hStored i
    constructor
    · intro _
      rw [(handleOne_stored hPartner hStored).2.2 p, if_pos rfl, hHere, counted,
        if_neg (by simp; omega)]
      simp only [List.cons.injEq, and_true, PairTask.mk.injEq, true_and]
      omega
    · intro i r' hResponse
      rw [hRow i]
      by_cases hLast : i = rs.length
      · subst hLast
        rw [getElem?_concat_length] at hResponse
        cases hResponse
        exact if_pos rfl
      · rw [if_neg hLast]
        have hBound := (List.getElem?_eq_some_iff.mp hResponse).1
        rw [length_append, length_singleton] at hBound
        rw [getElem?_append_left (by omega)] at hResponse
        exact hRows i r' hResponse

end Fills

-- What the entry at a place holds, in the arrays of a subroutine.
def heldAt (n : Node) (sub : Nat) : Place → Option Int
  | .entry address index => do
    let b ← n.blockOf sub address
    let i ← constantIndex? index
    ((n.heap.get b).readAt i).join
  | .register _ => none

theorem heldAt_of_row (hRow : n.rowOf task i = some values) (hInside : k < resultFields) :
    n.heldAt task.subroutine (.entry task.results (.int (i * resultSize + k))) =
      (values[k]?).join := by
  rcases Option.map_eq_some_iff.mp hRow with ⟨b, hBlock, rfl⟩
  have hEntry : ((n.heap.get b).row (resultFields * i) resultFields)[k]? =
      (n.heap.get b)[resultFields * i + k]? := by
    rw [Block.row, getElem?_take_of_lt hInside, getElem?_drop]
  have hPlace : (i : Int) * resultSize + k = (resultFields * i + k : Nat) := by
    unfold resultSize resultFields
    omega
  rw [hEntry, hPlace]
  simp only [heldAt, hBlock, Option.bind_eq_bind, Option.bind_some, constantIndex?,
    Value.int?, Block.readAt, place?]
  rw [if_pos (by omega)]
  split
  · rfl
  · rw [getElem?_eq_none (by omega)]
    rfl

end Node

-- The futures of what is known about a pair.
def PairInfo.futures : PairInfo → List Nat
  | .known fs => fs
  | _ => []

def KeepResult.futures (r : KeepResult) : List Nat := [r.qubit, r.remoteNode, r.duration, r.bell]

def MeasureResult.futures (r : MeasureResult) : List Nat :=
  [r.outcome, r.remoteNode, r.duration, r.bell]

namespace Session
variable {α : Type} {a : HostArray} {s : Session} {g : α → List Nat} (ks : List Int)

---- New futures

def entryOf (a : HostArray) (k : Int) : Place := .entry a.address (.int k)

def withEntries (a : HostArray) (ks : List Int) (s : Session) : Session :=
  { s with futures := s.futures ++ (ks.map fun k => ⟨entryOf a k, none⟩).toArray }

theorem withEntries_append (more : List Int) :
    withEntries a more (withEntries a ks s) = withEntries a (ks ++ more) s := by
  simp [withEntries]

theorem places_withEntries (more : List Int) :
    (List.range' s.futures.size ks.length).map (withEntries a (ks ++ more) s).place? =
      ks.map fun k => some (entryOf a k) := by
  refine ext_getElem? fun i => ?_
  by_cases hBound : i < ks.length
  · have hCell : (s.withEntries a (ks ++ more)).futures[s.futures.size + i]? =
        (ks[i]?).map fun k => ⟨entryOf a k, none⟩ := by
      rw [withEntries, Array.getElem?_append_right (Nat.le_add_right _ _)]
      simp [getElem?_append, hBound]
    simp [place?, hCell, hBound]
  · simp [hBound]

-- An operation that makes futures for some entries of an array, and answers with them in order.
def Puts (a : HostArray) (g : α → List Nat) (ks : List Int) (x : SessionM α) : Prop :=
  ∀ s : Session, ∃ v, effect x s = (.ok v, s.withEntries a ks) ∧
    g v = List.range' s.futures.size ks.length

theorem puts_mapM {f : Int → SessionM α} {ks : Int → List Int}
    (hEach : ∀ start, Puts a g (ks start) (f start)) (starts : List Int) (s : Session) :
    ∃ vs, effect (starts.mapM f) s = (.ok vs, s.withEntries a (starts.flatMap ks)) ∧
      vs.map (fun v => (g v).map (s.withEntries a (starts.flatMap ks)).place?) =
        starts.map fun start => (ks start).map fun k => some (entryOf a k) := by
  induction starts generalizing s with
  | nil => exact ⟨[], by simp [withEntries], rfl⟩
  | cons start starts ih =>
    rcases hEach start s with ⟨v, hFirst, hFutures⟩
    rcases ih (s.withEntries a (ks start)) with ⟨vs, hRest, hPlaces⟩
    rw [withEntries_append] at hRest hPlaces
    refine ⟨v :: vs, ?_, ?_⟩
    · simp only [mapM_cons, effect_bind, hFirst, hRest, effect_pure, flatMap_cons]
    · rw [map_cons, map_cons, flatMap_cons, hPlaces, hFutures, places_withEntries]

theorem puts_entries : Puts a id ks (ks.mapM fun k => entryFuture a (.int k)) := by
  induction ks with
  | nil => exact fun s => ⟨[], by simp [withEntries], rfl⟩
  | cons k ks ih =>
    intro s
    have hFirst : effect (entryFuture a (.int k)) s = (.ok s.futures.size, s.withEntries a [k]) := by
      rfl
    rcases ih (s.withEntries a [k]) with ⟨fs, hRest, hFutures⟩
    rw [withEntries_append] at hRest
    refine ⟨s.futures.size :: fs, ?_, ?_⟩
    · simp only [mapM_cons, effect_bind, hFirst, hRest, effect_pure, singleton_append]
    · rw [id] at hFutures
      rw [hFutures, withEntries, length_cons, range'_succ]
      simp

theorem puts_info (start : Int) :
    Puts a PairInfo.futures ((List.range 10).map fun k : Nat => start + k) (do
      return .known (← sliceFutures a [.int start, .int (start + resultSize)])) := by
  have hCount : Slice.count start (start + resultSize) 1 = 10 := by
    unfold resultSize Slice.count
    rw [if_pos (by decide), if_pos (by omega)]
    omega
  have hSteps : steps start (start + resultSize) 1 =
      .ok ((List.range 10).map fun k : Nat => start + k) := by
    simp [steps, hCount]
  intro s
  rcases puts_entries (a := a) ((List.range 10).map fun k : Nat => start + k) s with
    ⟨fs, hMade, hFutures⟩
  refine ⟨.known fs, ?_, hFutures⟩
  have hSlice : effect (sliceFutures a [.int start, .int (start + resultSize)]) s =
      effect (do (← liftM (steps start (start + resultSize) 1)).mapM fun i => entryFuture a (.int i))
        s := rfl
  rw [effect_bind, hSlice, hSteps, effect_bind, effect_lift]
  simp only [hMade, effect_pure]

theorem puts_kept (start : Int) :
    Puts a KeepResult.futures ([2, 6, 7, 9].map fun k : Nat => start + k) (do
      let entry (place : Int) : SessionM Nat := entryFuture a (.int (start + place))
      return ⟨← entry keepQubit, ← entry keepRemote, ← entry keepDuration, ← entry keepBell⟩) := by
  intro s
  refine ⟨_, rfl, ?_⟩
  simp [KeepResult.futures, List.range']

theorem puts_measured (r : PairRequest) (role : PairRole) (start : Int) :
    Puts a MeasureResult.futures ([2, 7, 8, 9].map fun k : Nat => start + k) (do
      let entry (place : Int) : SessionM Nat := entryFuture a (.int (start + place))
      return {
        outcome := ← entry measureOutcome
        localBasis := r.rotationsLocal
        remoteBasis := r.rotationsRemote
        corrected := r.expectPhiPlus && role = .receive
        remoteNode := ← entry measureRemote
        duration := ← entry measureDuration
        bell := ← entry measureBell }) := by
  intro s
  refine ⟨_, rfl, ?_⟩
  simp [MeasureResult.futures, List.range']

---- Reading

-- What the entry that a future is for holds, in the arrays of a subroutine.
def held (s : Session) (n : Node) (sub f : Nat) : Option Int := (s.place? f).bind (n.heldAt sub)

section Read
variable {n : Node} {task : PairTask} {rs : List Response} {f : Int → SessionM α} {ks : List Nat}

theorem nodup_entries (hOnce : ks.Nodup) (hInside : ∀ k ∈ ks, k < 10) (number : Int) :
    ((resultStarts number).flatMap fun start =>
      ks.map fun k : Nat => some (entryOf a (start + k))).Nodup := by
  have hPlace : ∀ {i j k l : Nat}, k ∈ ks → l ∈ ks →
      some (entryOf a (i * resultSize + k)) = some (entryOf a (j * resultSize + l)) →
        i = j ∧ k = l := by
    intro i j k l hk hl hSame
    simp only [entryOf, resultSize, Option.some.injEq, Place.entry.injEq, Value.int.injEq] at hSame
    have := hInside k hk
    have := hInside l hl
    omega
  rw [resultStarts, flatMap_map, nodup_flatMap]
  constructor
  · intro i _
    exact hOnce.map_on fun k hk l hl hSame => (hPlace hk hl hSame).2
  · refine nodup_range.imp fun {i j} hOther => ?_
    rintro _ hHere hThere
    rcases mem_map.mp hHere with ⟨k, hk, rfl⟩
    rcases mem_map.mp hThere with ⟨l, hl, hSame⟩
    exact hOther (hPlace hk hl hSame.symm).1

-- Futures that are made for the same entries of each row are for what is stored there, and no two
-- are for one entry.
theorem read_rows (hRows : ∀ i r, rs[i]? = some r → n.rowOf task i = some r.values)
    (hArray : a.address = task.results) (hOnce : ks.Nodup) (hInside : ∀ k ∈ ks, k < 10)
    (hEach : ∀ start, Puts a g (ks.map fun k : Nat => start + k) (f start)) (s : Session) :
    ∃ vs t, effect ((resultStarts rs.length).mapM f) s = (.ok vs, t) ∧
      vs.map (fun v => (g v).map (t.held n task.subroutine)) =
        rs.map (fun r => ks.map fun k => (r.values[k]?).join) ∧
      ((vs.flatMap g).map t.place?).Nodup := by
  rcases puts_mapM hEach (resultStarts rs.length) s with ⟨vs, hMade, hPlaces⟩
  refine ⟨vs, _, hMade, ?_, ?_⟩
  · have hHeld := congrArg (List.map (List.map fun place => place.bind (n.heldAt task.subroutine)))
      hPlaces
    rw [resultStarts] at hHeld
    simp only [Function.comp_def, map_map] at hHeld
    refine hHeld.trans (ext_getElem? fun i => ?_)
    rw [getElem?_map, getElem?_map]
    cases hResponse : rs[i]? with
    | none => simp [List.getElem?_eq_none_iff.mp hResponse]
    | some r =>
      have hBound := (List.getElem?_eq_some_iff.mp hResponse).1
      have hHere : (List.range (rs.length : Int).toNat)[i]? = some i := by simp [hBound]
      rw [hHere]
      refine congrArg some (map_congr_left fun k hk => ?_)
      rw [entryOf, hArray]
      exact Node.heldAt_of_row (hRows i r hResponse) (hInside k hk)
  · rw [map_flatMap, flatMap_def, hPlaces]
    simp only [map_map]
    exact nodup_entries hOnce hInside _

end Read

/-
  Let all responses to a request be handled, for as many pairs as were asked for. Then the host can
  make the futures for results that are kept, for results that are measured, and for all fields.
  Those of each pair are for the entries that hold the fields of the response of that pair, and no
  two futures are for one entry.
-/
theorem results_read_where_stored
    {p : Node.Partner}
    {task : PairTask}
    {rest : List PairTask}
    {rs : List Response}
    {n t : Node}
    (request : PairRequest)
    (a : HostArray)
    (hQueue : n.queue p = task :: rest)
    (hFresh : task.left = task.total)
    (hTotal : task.total = rs.length)
    (hFills : Node.Fills p task n rs t)
    (hNumber : request.number = rs.length)
    (hAddress : a.address = task.results)
    (hLength : a.length = resultSize * rs.length)
    (s : Session)
    (role : PairRole) :
    ∃ kept measured infos s₁ s₂ s₃, effect (keepResults request a) s = (.ok kept, s₁) ∧
      effect (measureResults request a role) s = (.ok measured, s₂) ∧
      effect (pairInfos request.number a) s = (.ok infos, s₃) ∧
      (∀ ks : List KeepOk, rs = ks.map .keep →
        kept.map (fun v => v.futures.map (s₁.held t task.subroutine)) = ks.map fun k =>
          [k.logicalQubit, k.remoteNode, k.goodness, k.bellState].map fun v => some v.number) ∧
      (∀ ms : List MeasureOk, rs = ms.map .measure →
        measured.map (fun v => v.futures.map (s₂.held t task.subroutine)) = ms.map fun m =>
          [m.outcome, m.remoteNode, m.goodness, m.bellState].map fun v => some v.number) ∧
      infos.map (fun v => v.futures.map (s₃.held t task.subroutine)) = rs.map Response.values ∧
      ((kept.flatMap KeepResult.futures).map s₁.place?).Nodup ∧
      ((measured.flatMap MeasureResult.futures).map s₂.place?).Nodup ∧
      ((infos.flatMap PairInfo.futures).map s₃.place?).Nodup := by
  have hRows := (hFills.rows hQueue hFresh (by omega)).2
  have hChecked : checkResults request.number a = .ok ⟨⟩ := by
    rw [checkResults, hNumber, hLength, Int.mul_comm]
    simp [demand]
  rcases read_rows hRows hAddress (by decide) (by decide) puts_kept s with
    ⟨kept, s₁, hKept, hKeptRead, hKeptOnce⟩
  rcases read_rows hRows hAddress (by decide) (by decide) (puts_measured request role) s with
    ⟨measured, s₂, hMeasured, hMeasuredRead, hMeasuredOnce⟩
  rcases read_rows hRows hAddress (by decide) (by decide) puts_info s with
    ⟨infos, s₃, hInfos, hInfosRead, hInfosOnce⟩
  refine ⟨kept, measured, infos, s₁, s₂, s₃, ?_, ?_, ?_, ?_, ?_, ?_, hKeptOnce, hMeasuredOnce,
    hInfosOnce⟩
  · rw [keepResults, effect_bind, effect_lift, hChecked, hNumber]
    exact hKept
  · rw [measureResults, effect_bind, effect_lift, hChecked, hNumber]
    exact hMeasured
  · rw [pairInfos, hNumber]
    exact hInfos
  · rintro ks rfl
    rw [hKeptRead, map_map]
    rfl
  · rintro ms rfl
    rw [hMeasuredRead, map_map]
    rfl
  · rw [hInfosRead]
    refine map_congr_left fun r hr => ?_
    cases hFills.granted r hr <;> rfl

-- Two kept pairs are asked for, and the node has room for them.
def expecting : Node := Node.ready.withQueue ⟨false, (1, 0)⟩ [⟨0, 1, some 0, 2, 2⟩]

theorem results_read_where_stored_twice :
    ∃ kept s, effect (keepResults { PairRequest.one 1 0 with number := 2 } ⟨1, 20, none, none⟩)
        default = (.ok kept, s) ∧
      kept.map (fun v => v.futures.map (s.held (effect (Node.handleOne 0 (Node.keptFrom 1 6 8))
          (effect (Node.handleOne 0 (Node.keptFrom 1 5 7)) expecting).2).2 0)) =
        [[some 5, some 1, some 0, some 0], [some 6, some 1, some 0, some 0]] := by
  have hFirst : (effect (Node.handleOne 0 (Node.keptFrom 1 5 7)) expecting).1.toOption =
      some true := by decide +kernel
  have hSecond : (effect (Node.handleOne 0 (Node.keptFrom 1 6 8))
      (effect (Node.handleOne 0 (Node.keptFrom 1 5 7)) expecting).2).1.toOption =
      some true := by decide +kernel
  have hFills : Node.Fills ⟨false, (1, 0)⟩ ⟨0, 1, some 0, 2, 2⟩ expecting
      [Node.keptFrom 1 5 7, Node.keptFrom 1 6 8] _ :=
    .stored (.stored .start (.keep rfl) rfl (effect_of_toOption hFirst)) (.keep rfl) rfl
      (effect_of_toOption hSecond)
  rcases results_read_where_stored { PairRequest.one 1 0 with number := 2 } ⟨1, 20, none, none⟩
    rfl rfl rfl hFills rfl rfl rfl default .receive with
    ⟨kept, _, _, s, _, _, hKept, _, _, hRead, _⟩
  exact ⟨kept, s, hKept, hRead [_, _] rfl⟩

---- Futures of a slice

theorem entries_held {t : Session} {b : Block} {fs : List Nat} {ks : List Int}
    (hPlaces : fs.map t.place? = ks.map fun k => some (entryOf a k))
    (hInside : ∀ k ∈ ks, 0 ≤ k ∧ k < b.length) :
    Forall₂ (fun f v => ∃ k : Nat, t.place? f = some (entryOf a k) ∧ b[k]? = some v) fs
      ((ks.map Int.toNat).filterMap fun p => b[p]?) := by
  induction ks generalizing fs with
  | nil => simp [map_eq_nil_iff.mp hPlaces]
  | cons k ks ih =>
    rcases map_eq_cons_iff.mp hPlaces with ⟨f, fs, rfl, hHere, hRest⟩
    rw [forall_mem_cons] at hInside
    have hEntry := getElem?_eq_getElem (l := b) (i := k.toNat) (by omega)
    rw [map_cons, filterMap_cons_some hEntry]
    refine .cons ⟨k.toNat, ?_, hEntry⟩ (ih hRest hInside.2)
    rw [hHere, Int.toNat_of_nonneg hInside.1.1]

-- The parts of a slice; one that is left out has no value.
def partsOf (slice : Slice) : List Value :=
  [slice.start, slice.stop, slice.step].map fun part => part.elim .none .int

/-
  The futures of a slice are for the entries that it reads, in order, if it has a stop, has a start
  whenever it has a step, and its bounds are in the array.
-/
theorem future_slice_reads
    (b : Block)
    (start : Option Int)
    (stop : Int)
    (step : Option Int)
    (hStart : step.isSome → start.isSome)
    (hStep : step.getD 1 ≠ 0)
    (hBounds : ∀ i ∈ start.toList ++ [stop],
      0 ≤ i ∧ i ≤ b.length - (decide (step.getD 1 < 0)).toNat) :
    ∃ fs t vs, effect (sliceFutures a (partsOf ⟨start, some stop, step⟩)) s = (.ok fs, t) ∧
      b.readSlice ⟨start, some stop, step⟩ = .ok vs ∧
      Forall₂ (fun f v => ∃ k : Nat, t.place? f = some (entryOf a k) ∧ b[k]? = some v) fs vs := by
  let slice : Slice := ⟨start, some stop, step⟩
  let ks : List Int := (List.range (Slice.count (start.getD 0) stop (step.getD 1))).map fun k =>
    start.getD 0 + Int.ofNat k * step.getD 1
  have hSteps : steps (start.getD 0) stop (step.getD 1) = .ok ks := if_neg hStep
  have hSlice : effect (sliceFutures a (partsOf slice)) s =
      effect (do
        (← liftM (steps (start.getD 0) stop (step.getD 1))).mapM fun i => entryFuture a (.int i))
        s := by
    rcases start, step with ⟨_ | start, _ | step⟩
    all_goals first | rfl | cases hStart rfl
  have hFirst : slice.first b.length (step.getD 1 < 0) = start.getD 0 := by
    cases start with
    | none => cases step <;> grind [Slice.first]
    | some i => exact Slice.clip_inside (hBounds i (by simp))
  have hLast : slice.last b.length (step.getD 1 < 0) = stop :=
    Slice.clip_inside (hBounds stop (by simp))
  have hInside : ∀ k ∈ ks, 0 ≤ k ∧ k < b.length := by
    simp only [ks, mem_map, mem_range]
    rintro _ ⟨k, hk, rfl⟩
    rw [← hFirst, ← hLast] at hk
    rw [← hFirst]
    exact Slice.step_inside hStep hk
  rcases puts_entries (a := a) ks s with ⟨fs, hMade, hFutures⟩
  refine ⟨fs, withEntries a ks s, _, ?_, ?_, entries_held ?_ hInside⟩
  · rw [hSlice, hSteps, effect_bind, effect_lift]
    exact hMade
  · rw [Block.readSlice, Slice.positions, if_neg hStep, hFirst, hLast, map_map]
    rfl
  · rw [← id_eq fs, hFutures]
    simpa using places_withEntries ks []

-- Every second entry, from the last one down to the second.
theorem future_slice_reads_down :
    ∃ fs t, effect (sliceFutures ⟨0, 4, none, none⟩ [.int 3, .int 0, .int (-2)]) default = (.ok fs, t) ∧
      Forall₂ (fun f v => ∃ k : Nat, t.place? f = some (entryOf ⟨0, 4, none, none⟩ k) ∧
        ([some 4, none, some 6, some 7] : Block)[k]? = some v) fs [some 7, none] := by
  rcases future_slice_reads [some 4, none, some 6, some 7] (some 3) 0 (some (-2)) (by simp)
    (by simp) (by simp) with ⟨fs, t, _, hMade, hRead, hEach⟩
  cases hRead
  exact ⟨fs, t, hMade, hEach⟩

end Session

end QuantumNode
