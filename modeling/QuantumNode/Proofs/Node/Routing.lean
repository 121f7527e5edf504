import Mathlib.Data.List.Induction
import Mathlib.Data.List.Nodup
import Mathlib.Data.List.Pairwise
import Mathlib.Logic.Function.Basic
import QuantumNode.Proofs.Node.Requests

/-
  Responses reach their own pairs. Requests are made, qubits are allocated and freed, and responses
  arrive in any order; each response is stored for the pair that it is from, provided that no
  response without a qubit arrives while one with a qubit from the same partner waits for its
  address.
-/

open List

namespace QuantumNode.Node
open Deed
variable {d : Deed} {ds : List Deed} {rest : List PairTask} {all rs : List Response}
  {k pair : Nat} {slot : PairTask × Nat} {q : Partner × PairTask} {n : Partner → Nat}
  {r' : Response}

variable {requests : List (Partner × PairTask)} {done todo : List Response} {s t : Node}
  {task : PairTask} {p : Partner} {r : Response}

-- A task that still expects a pair.
def Counting (task : PairTask) : Prop := 0 < task.left ∧ task.left ≤ task.total

section Left

theorem pairsLeft_cons (hCounting : Counting task) :
    pairsLeft (task :: rest) = ({ task with left := task.total }, (task.total - task.left).toNat) ::
        pairsLeft (counted (task :: rest)) := by
  rcases hCounting with ⟨_, _⟩
  obtain ⟨m, _⟩ : ∃ m : Nat, task.left = m + 1 := ⟨(task.left - 1).toNat, by omega⟩
  have hNat : task.left.toNat = m + 1 := by omega
  have hFirst : pairsLeft (task :: rest) =
      ({ task with left := task.total }, (task.total - task.left).toNat) ::
        ((List.range m).map fun k =>
          ({ task with left := task.total }, (task.total - task.left).toNat + (k + 1))) ++
        pairsLeft rest := by
    rw [pairsLeft, flatMap_cons, hNat, range_succ_eq_map, map_cons, map_map]
    rfl
  rw [hFirst, cons_append]
  congr 1
  rw [counted]
  by_cases hLast : task.left - 1 = 0
  · rw [if_pos hLast]
    obtain rfl : m = 0 := by omega
    rfl
  · rw [if_neg hLast]
    congr 1
    have hRest : (task.left - 1).toNat = m := by omega
    have hShift : (task.total - (task.left - 1)).toNat = (task.total - task.left).toNat + 1 := by
      omega
    simp only [hRest, hShift]
    refine map_congr_left fun k _ => ?_
    rw [Nat.add_comm k 1, Nat.add_assoc]

theorem counting_counted (hCounting : ∀ task ∈ ts, Counting task) :
    ∀ task ∈ counted ts, Counting task := by
  cases ts with
  | nil => exact hCounting
  | cons first rest =>
    rcases forall_mem_cons.mp hCounting with ⟨hFirst, hRest⟩
    rw [counted]
    by_cases hLast : first.left - 1 = 0
    · rw [if_pos hLast]
      exact hRest
    · rw [if_neg hLast]
      refine forall_mem_cons.mpr ⟨?_, hRest⟩
      unfold Counting at hFirst ⊢
      simp only
      omega

theorem pairsLeft_append (ts more : List PairTask) :
    pairsLeft (ts ++ more) = pairsLeft ts ++ pairsLeft more :=
  flatMap_append

theorem pairsLeft_requests (hFresh : ∀ q ∈ requests, q.2.left = q.2.total) (p : Partner) :
    pairsLeft ((requests.filter fun q => q.1 = p).map Prod.snd) = pairsOf p requests := by
  unfold pairsLeft pairsOf
  rw [flatMap_map]
  refine flatMap_congr fun q hq => ?_
  have hLeft := hFresh q (mem_filter.mp hq).1
  rcases q with ⟨_, _, _, _, total, left⟩
  obtain rfl : left = total := hLeft
  simp

theorem fresh_of_request? (hRequest : request? s sub i = some q) : q.2.left = q.2.total := by
  unfold request? at hRequest
  split at hRequest
  · simp only [Option.bind_eq_bind, Option.bind_eq_some_iff] at hRequest
    rcases hRequest with ⟨_, _, _, _, _, _, _, _, _, _, _, _, _, _, ⟨⟩⟩
    rfl
  · simp only [Option.bind_eq_bind, Option.bind_eq_some_iff] at hRequest
    rcases hRequest with ⟨_, _, _, _, _, _, _, _, _, _, ⟨⟩⟩
    rfl
  · cases hRequest

end Left

---- Requests apart

def resultsOf (s : Node) (task : PairTask) : Option Nat := s.blockOf task.subroutine task.results

/-
  Requests for at least one pair each that do not get into each other's way, and responses of the
  right type: there is room for all results, no array of results serves twice, and each qubit has an
  address.
-/
@[mk_iff] structure Proper (s : Node) (requests : List (Partner × PairTask))
    (rs : List Response) : Prop where
  asksPairs : ∀ q ∈ requests, 0 < q.2.total
  room : ∀ q ∈ requests, ∀ pair < q.2.total.toNat, Roomy s q.2 pair
  apart : requests.Pairwise fun q q' => s.resultsOf q.2 ≠ s.resultsOf q'.2
  addresses :
    ∀ q ∈ requests, ∀ q' ∈ requests, ∀ a ∈ q.2.qubits, s.blockOf q.2.subroutine a ≠ s.resultsOf q'.2
  typed : ∀ q ∈ requests, ∀ x ∈ (fromPartner s.id q.1 rs).zip (pairsOf q.1 requests),
      x.1.isKeep = true → ∃ v, Addressed s x.2.1 x.2.2 v

instance Proper.decidable (s : Node) (requests : List (Partner × PairTask)) (rs : List Response) :
    Decidable (Proper s requests rs) :=
  decidable_of_iff' _ (proper_iff s requests rs)

namespace Proper
section
variable (hProper : Proper s requests rs)
include hProper
theorem eq_of_resultsOf (hq : q ∈ requests) (hq' : q' ∈ requests)
    (hSame : s.resultsOf q.2 = s.resultsOf q'.2) : q = q' := by
  by_contra hOther
  have hSymm : Std.Symm fun q q' : Partner × PairTask => s.resultsOf q.2 ≠ s.resultsOf q'.2 :=
    ⟨fun _ _ hApart => hApart.symm⟩
  exact hProper.apart.forall hq hq' hOther hSame

theorem nodup_pairsOf (p : Partner) : (pairsOf p requests).Nodup := by
  have hDistinct : requests.Nodup := hProper.apart.imp fun hApart hSame => hApart (by rw [hSame])
  unfold pairsOf
  rw [nodup_flatMap]
  constructor
  · intro q _
    refine nodup_range.map fun k _ hSame => ?_
    exact (Prod.mk.inj hSame).2
  · refine List.Pairwise.imp_of_mem ?_ (hDistinct.filter _)
    intro q q' hq hq' hOther _ hSlot hSlot'
    rcases mem_map.mp hSlot with ⟨_, _, rfl⟩
    rcases mem_map.mp hSlot' with ⟨_, _, hEq⟩
    have hPartner : q.1 = p := by simpa using (mem_filter.mp hq).2
    have hPartner' : q'.1 = p := by simpa using (mem_filter.mp hq').2
    exact hOther (Prod.ext (hPartner.trans hPartner'.symm) (Prod.mk.inj hEq).1.symm)

theorem addressed (hResponse : (fromPartner s.id p rs)[k]? = some r)
    (hSlot : (pairsOf p requests)[k]? = some slot) (hKeep : r.isKeep = true) :
    ∃ v, Addressed s slot.1 slot.2 v := by
  have hMember := (mem_pairsOf.mp (mem_of_getElem? hSlot)).1
  refine hProper.typed _ hMember (r, slot) ?_ hKeep
  refine mem_of_getElem? (i := k) ?_
  rw [getElem?_zip_eq_some]
  exact ⟨hResponse, hSlot⟩

end

theorem of_append (hProper : Proper s (requests ++ more) (rs ++ rs')) : Proper s requests rs := by
  have hLeft : ∀ q ∈ requests, q ∈ requests ++ more := fun q hq => mem_append_left _ hq
  refine ⟨fun q hq => hProper.asksPairs q (hLeft q hq), fun q hq => hProper.room q (hLeft q hq),
    (pairwise_append.mp hProper.apart).1,
    fun q hq q' hq' => hProper.addresses q (hLeft q hq) q' (hLeft q' hq'), ?_⟩
  intro q _ x hx
  rcases getElem?_of_mem hx with ⟨k, hk⟩
  rcases getElem?_zip_eq_some.mp hk with ⟨hResponse, hSlot⟩
  refine hProper.addressed (p := q.1) (k := k) ?_ ?_
  · unfold fromPartner
    rw [filter_append]
    exact (getElem?_append_left (List.getElem?_eq_some_iff.mp hResponse).1).trans hResponse
  · rw [pairsOf_append]
    exact (getElem?_append_left (List.getElem?_eq_some_iff.mp hSlot).1).trans hSlot

end Proper

---- The invariant

/-
  Behind some requests and responses, with so many stored for the pairs with each partner: the first
  responses from a partner are in the rows of the first pairs that it was asked for, the others are
  pending, and the other pairs are expected.
-/
structure Routed (s : Node) (requests : List (Partner × PairTask)) (all rs : List Response)
    (n : Partner → Nat) (t : Node) : Prop where
  apps : SameApps s t
  sizes : ∀ b, (t.heap.get b).length = (s.heap.get b).length
  kept : ∀ b, (∀ q ∈ requests, s.resultsOf q.2 ≠ some b) → t.heap.get b = s.heap.get b
  pending_eq : t.pending = rs.map .former
  granted : ∀ r ∈ rs, r.Granted ∧ r.Fits s.hardware ∧ ∃ p, partner? s.id r = some p
  turns : rs.Pairwise fun r r' =>
      partner? s.id r = partner? s.id r' → r.isKeep = true → r'.isKeep = true
  left : ∀ p, fromPartner s.id p rs = (fromPartner s.id p all).drop (n p)
  counting : ∀ p, ∀ task ∈ t.queue p, Counting task
  expected : ∀ p, pairsLeft (t.queue p) = (pairsOf p requests).drop (n p)
  few : ∀ p, n p ≤ (fromPartner s.id p all).length ∧ n p ≤ (pairsOf p requests).length
  rows : ∀ p k slot, (pairsOf p requests)[k]? = some slot → t.rowOf slot.1 slot.2 =
        if k < n p then ((fromPartner s.id p all)[k]?).map Response.values
        else s.rowOf slot.1 slot.2

theorem rowOf_eq (hSame : SameApps s t)
    (hHeap : ∀ b, s.resultsOf task = some b → t.heap.get b = s.heap.get b) (pair : Nat) :
    t.rowOf task pair = s.rowOf task pair := by
  unfold rowOf
  rw [hSame.blockOf_eq]
  cases hBlock : s.blockOf task.subroutine task.results with
  | none => rfl
  | some b => rw [Option.map_some, Option.map_some, hHeap b hBlock]

section Written
variable {u : Node} {b : Nat} {values : Block}

theorem rowOf_replaced (hSame : SameApps t u) (hBlock : t.resultsOf task = some b)
    (hLength : values.length = resultFields)
    (hRoom : resultFields * pair + resultFields ≤ (t.heap.get b).length)
    (hHeap : u.heap = t.heap.set b ((t.heap.get b).replaced (resultFields * pair) values))
    (other : Nat) :
    u.rowOf task other = if other = pair then some values else t.rowOf task other := by
  have hBefore : t.blockOf task.subroutine task.results = some b := hBlock
  have hFields : 0 < resultFields := by decide
  have hInside := Heap.inside_of_get (h := t.heap) (n := b) (by omega)
  have hInBlock : resultFields * pair + values.length ≤ (t.heap.get b).length := by omega
  rw [rowOf, rowOf, hSame.blockOf_eq, hBefore, Option.map_some, Option.map_some, hHeap,
    Heap.get_set_self hInside]
  split
  · rename_i hPair
    have hRow := Block.row_replaced_self hInBlock
    rw [hLength] at hRow
    rw [hPair, hRow]
  · have hApart : resultFields * other + resultFields ≤ resultFields * pair ∨
        resultFields * pair + values.length ≤ resultFields * other := by
      unfold resultFields at *
      omega
    rw [Block.row_replaced_apart hInBlock hApart]

end Written

theorem getElem?_of_drop {α : Type} {l rest : List α} {i : Nat} {a : α}
    (hDrop : l.drop i = a :: rest) : l[i]? = some a := by
  rw [← head?_drop, hDrop]
  rfl

namespace Routed
variable {u : Node} {more : List (Partner × PairTask)}

theorem start (hPending : s.pending = []) (hQueues : ∀ p, s.queue p = []) :
    Routed s [] [] [] (fun _ => 0) s where
  apps := .refl s
  sizes _ := rfl
  kept _ _ := rfl
  pending_eq := hPending
  granted := by simp
  turns := .nil
  left _ := rfl
  counting p := by simp [hQueues p]
  expected p := by
    rw [hQueues p]
    rfl
  few _ := ⟨Nat.zero_le _, Nat.zero_le _⟩
  rows p k slot hSlot := by cases hSlot

theorem ask (hRouted : Routed s requests all rs n t) (hAsks : Asks more t u)
    (hFresh : ∀ q ∈ more, q.2.left = q.2.total) (hProper : Proper s (requests ++ more) all) :
    Routed s (requests ++ more) all rs n u := by
  have hApps : SameApps s u := hRouted.apps.trans hAsks.apps
  refine ⟨hApps, ?_, ?_, ?_, hRouted.granted, hRouted.turns, hRouted.left, ?_, ?_, ?_, ?_⟩
  · intro b
    rw [hAsks.heap_eq]
    exact hRouted.sizes b
  · intro b hOther
    rw [hAsks.heap_eq]
    exact hRouted.kept b fun q hq => hOther q (mem_append_left _ hq)
  · rw [hAsks.pending_eq]
    exact hRouted.pending_eq
  · intro p task hTask
    rw [hAsks.queues p] at hTask
    rcases mem_append.mp hTask with hOld | hNew
    · exact hRouted.counting p task hOld
    · rcases mem_map.mp hNew with ⟨q, hq, rfl⟩
      have hMember := (mem_filter.mp hq).1
      have hTotal := hProper.asksPairs q (mem_append_right _ hMember)
      have hLeft := hFresh q hMember
      exact ⟨by omega, by omega⟩
  · intro p
    rw [hAsks.queues p, pairsLeft_append, hRouted.expected p, pairsLeft_requests hFresh,
      pairsOf_append, drop_append_of_le_length (hRouted.few p).2]
  · intro p
    refine ⟨(hRouted.few p).1, ?_⟩
    rw [pairsOf_append, length_append]
    exact Nat.le_add_right_of_le (hRouted.few p).2
  · intro p k slot hSlot
    have hUnchanged : u.rowOf slot.1 slot.2 = t.rowOf slot.1 slot.2 :=
      rowOf_eq hAsks.apps (fun b _ => by rw [hAsks.heap_eq]) _
    rw [hUnchanged]
    rw [pairsOf_append] at hSlot
    by_cases hOld : k < (pairsOf p requests).length
    · rw [getElem?_append_left hOld] at hSlot
      exact hRouted.rows p k slot hSlot
    · -- A new pair has an array of results of its own, which nothing was stored in.
      rw [getElem?_append_right (by omega)] at hSlot
      have hFew := (hRouted.few p).2
      rw [if_neg (by omega)]
      refine rowOf_eq hRouted.apps (fun b hBlock => hRouted.kept b fun q hq hSame => ?_) _
      have hMember := (mem_pairsOf.mp (mem_of_getElem? hSlot)).1
      have hApart := (pairwise_append.mp hProper.apart).2.2 q hq _ hMember
      exact hApart (hSame.trans hBlock.symm)

theorem arrive (hRouted : Routed s requests all rs n t)
    (hGranted : r.Granted ∧ r.Fits s.hardware ∧ ∃ p, partner? s.id r = some p)
    (hTurn : ∀ r' ∈ rs, partner? s.id r' = partner? s.id r → r'.isKeep = true → r.isKeep = true) :
    Routed s requests (all ++ [r]) (rs ++ [r]) n
      { t with pending := t.pending ++ [.former r] } := by
  have hAll : ∀ p, fromPartner s.id p (all ++ [r]) =
      fromPartner s.id p all ++ fromPartner s.id p [r] := fun p => filter_append ..
  refine ⟨hRouted.apps.trans ⟨rfl, rfl, rfl, rfl, fun _ => rfl⟩, hRouted.sizes, hRouted.kept,
    ?_, ?_, ?_, ?_, hRouted.counting, hRouted.expected, ?_, ?_⟩
  · rw [map_append, ← hRouted.pending_eq]
    rfl
  · exact forall_mem_append.mpr ⟨hRouted.granted, forall_mem_singleton.mpr hGranted⟩
  · refine pairwise_append.mpr ⟨hRouted.turns, pairwise_singleton _ _, ?_⟩
    intro r' hr' _ hr''
    obtain rfl := mem_singleton.mp hr''
    exact hTurn r' hr'
  · intro p
    have hRest : fromPartner s.id p (rs ++ [r]) =
        fromPartner s.id p rs ++ fromPartner s.id p [r] := filter_append ..
    rw [hRest, hAll p, hRouted.left p, drop_append_of_le_length (hRouted.few p).1]
  · intro p
    refine ⟨?_, (hRouted.few p).2⟩
    rw [hAll p, length_append]
    exact Nat.le_add_right_of_le (hRouted.few p).1
  · intro p k slot hSlot
    have hRow := hRouted.rows p k slot hSlot
    have hFew := (hRouted.few p).1
    by_cases hStored : k < n p
    · rw [hAll p, getElem?_append_left (by omega)]
      exact hRow
    · rw [if_neg hStored] at hRow ⊢
      exact hRow

theorem next (hRouted : Routed s requests all (done ++ r :: todo) n t)
    (hFirst : ∀ r' ∈ done, partner? s.id r' ≠ some p) (hPartner : partner? s.id r = some p)
    (hQueue : t.queue p = task :: rest) :
    (fromPartner s.id p all)[n p]? = some r ∧ (pairsOf p requests)[n p]? =
        some ({ task with left := task.total }, (task.total - task.left).toNat) := by
  constructor
  · have hLeft := hRouted.left p
    rw [fromPartner_next hFirst hPartner] at hLeft
    exact getElem?_of_drop hLeft.symm
  · have hCounting := hRouted.counting p task (hQueue ▸ mem_cons_self)
    have hExpected := hRouted.expected p
    rw [hQueue, pairsLeft_cons hCounting] at hExpected
    exact getElem?_of_drop hExpected.symm

-- What a response is stored for is the row of the next pair, and no other row changes.
theorem rows_stored (hRouted : Routed s requests all rs n t) (hProper : Proper s requests all)
    (hSlot : (pairsOf p requests)[n p]? = some (task, pair))
    (hLength : r.values.length = resultFields) (hBlock : t.resultsOf task = some b)
    (hRoom : resultFields * pair + resultFields ≤ (t.heap.get b).length) (hSame : SameApps t u)
    (hHeap : u.heap = t.heap.set b ((t.heap.get b).replaced (resultFields * pair) r.values))
    (q : Partner) (k : Nat) (slot : PairTask × Nat) (hHere : (pairsOf q requests)[k]? = some slot) :
    u.rowOf slot.1 slot.2 = if q = p ∧ k = n p then some r.values else t.rowOf slot.1 slot.2 := by
  have hMember := (mem_pairsOf.mp (mem_of_getElem? hSlot)).1
  have hMember' := (mem_pairsOf.mp (mem_of_getElem? hHere)).1
  have hStart : ∀ task, t.resultsOf task = s.resultsOf task := fun task =>
    hRouted.apps.blockOf_eq _ _
  by_cases hNext : q = p ∧ k = n p
  · rw [if_pos hNext]
    rcases hNext with ⟨rfl, rfl⟩
    obtain rfl : (task, pair) = slot := Option.some.inj (hSlot.symm.trans hHere)
    exact (rowOf_replaced hSame hBlock hLength hRoom hHeap pair).trans (if_pos rfl)
  · rw [if_neg hNext]
    by_cases hResults : t.resultsOf slot.1 = some b
    · -- Only pairs of one request share an array of results.
      have hShared : s.resultsOf slot.1 = s.resultsOf task := by
        rw [← hStart, ← hStart, hResults, hBlock]
      obtain ⟨rfl, hTask⟩ := Prod.mk.inj (hProper.eq_of_resultsOf hMember' hMember hShared)
      have hOther : slot.2 ≠ pair := by
        intro hPair
        rw [show slot = (task, pair) from Prod.ext hTask hPair, ← hSlot] at hHere
        have hIndex := (getElem?_inj (List.getElem?_eq_some_iff.mp hSlot).1
          (hProper.nodup_pairsOf q)).mp hHere.symm
        exact hNext ⟨rfl, hIndex.symm⟩
      rw [hTask]
      exact (rowOf_replaced hSame hBlock hLength hRoom hHeap _).trans (if_neg hOther)
    · refine rowOf_eq hSame (fun _ hBlock' => ?_) _
      rw [hHeap, Heap.get_set_of_ne]
      rintro rfl
      exact hResults hBlock'

theorem store (hRouted : Routed s requests all (done ++ r :: todo) n t)
    (hProper : Proper s requests all) (hFirst : ∀ r' ∈ done, partner? s.id r' ≠ some p)
    (hPartner : partner? s.id r = some p) (hQueue : t.queue p = task :: rest)
    (hStores : Stores done.length p r t u) :
    Routed s requests all (done ++ todo) (Function.update n p (n p + 1)) u := by
  have hMember : r ∈ done ++ r :: todo := mem_append_right _ mem_cons_self
  have hLength := (hRouted.granted r hMember).1.length_values
  have hCounting := hRouted.counting p task (hQueue ▸ mem_cons_self)
  rcases hRouted.next hFirst hPartner hQueue with ⟨hResponse, hSlot⟩
  generalize hPair : (task.total - task.left).toNat = pair at hSlot
  have hPairs := mem_pairsOf.mp (mem_of_getElem? hSlot)
  have hTotal := hCounting.2
  rcases hStores.heap_eq task (by rw [hQueue]; rfl) pair (by omega) with ⟨b, hBlock, hHeap⟩
  have hBlockStart : s.resultsOf task = some b := (hRouted.apps.blockOf_eq _ _).symm.trans hBlock
  have hRoom : resultFields * pair + resultFields ≤ (t.heap.get b).length := by
    rcases (hProper.room _ hPairs.1 pair hPairs.2).room with ⟨b', hBlock', hRoom⟩
    obtain rfl : b = b' := Option.some.inj (hBlockStart.symm.trans hBlock')
    rw [hRouted.sizes b]
    exact hRoom
  have hFields : 0 < resultFields := by decide
  have hInside : b < t.heap.blocks.size := Heap.inside_of_get (by omega)
  have hElsewhere : ∀ b', b' ≠ b → u.heap.get b' = t.heap.get b' := by
    intro b' hOther
    rw [hHeap, Heap.get_set_of_ne hOther]
  have hRows := hRouted.rows_stored hProper hSlot hLength hBlock hRoom hStores.apps hHeap
  have hLess : done ++ todo <+ done ++ r :: todo :=
    (append_sublist_append_left done).mpr (sublist_cons_self r todo)
  refine ⟨hRouted.apps.trans hStores.apps, ?_, ?_, ?_,
    fun r' hr' => hRouted.granted r' (hLess.subset hr'), hRouted.turns.sublist hLess, ?_, ?_, ?_, ?_, ?_⟩
  · intro b'
    rw [← hRouted.sizes b']
    by_cases hOther : b' = b
    · subst hOther
      rw [hHeap, Heap.get_set_self hInside, Block.length_replaced (by omega)]
    · rw [hElsewhere b' hOther]
  · intro b' hNone
    have hOther : b' ≠ b := by
      rintro rfl
      exact hNone _ hPairs.1 hBlockStart
    rw [hElsewhere b' hOther]
    exact hRouted.kept b' hNone
  · have hErase : (done ++ r :: todo).eraseIdx done.length = done ++ todo := by
      rw [eraseIdx_append_of_length_le (Nat.le_refl _), Nat.sub_self]
      rfl
    rw [hStores.pending_eq, hRouted.pending_eq, ← hErase, eraseIdx_map]
  · intro q
    have hLeft := hRouted.left q
    by_cases hSame : q = p
    · subst hSame
      rw [fromPartner_next hFirst hPartner] at hLeft
      rw [Function.update_self, ← drop_drop, ← hLeft]
      rfl
    · have hOther : partner? s.id r ≠ some q := by
        rw [hPartner]
        exact fun hEq => hSame (Option.some.inj hEq).symm
      rw [fromPartner, filter_append, filter_cons_of_neg (by simpa using hOther), ← filter_append]
        at hLeft
      rw [Function.update_of_ne hSame, fromPartner, hLeft]
  · intro q
    by_cases hSame : q = p
    · subst hSame
      rw [hStores.queue_eq]
      exact counting_counted (hRouted.counting q)
    · rw [hStores.others q hSame]
      exact hRouted.counting q
  · intro q
    have hExpected := hRouted.expected q
    by_cases hSame : q = p
    · subst hSame
      rw [hQueue, pairsLeft_cons hCounting] at hExpected
      rw [Function.update_self, ← drop_drop, ← hExpected, hStores.queue_eq, hQueue]
      rfl
    · rw [Function.update_of_ne hSame, hStores.others q hSame]
      exact hExpected
  · intro q
    by_cases hSame : q = p
    · subst hSame
      rw [Function.update_self]
      exact ⟨(List.getElem?_eq_some_iff.mp hResponse).1, (List.getElem?_eq_some_iff.mp hSlot).1⟩
    · rw [Function.update_of_ne hSame]
      exact hRouted.few q
  · intro q k slot hHere
    rw [hRows q k slot hHere]
    by_cases hSame : q = p
    · subst hSame
      rw [Function.update_self]
      by_cases hNext : k = n q
      · subst hNext
        rw [if_pos ⟨rfl, rfl⟩, if_pos (Nat.lt_succ_self _), hResponse]
        rfl
      · rw [if_neg fun hBoth => hNext hBoth.2, hRouted.rows q k slot hHere]
        exact if_congr (by omega) rfl rfl
    · rw [Function.update_of_ne hSame, if_neg fun hBoth => hSame hBoth.1]
      exact hRouted.rows q k slot hHere

end Routed

---- Handling what is pending

-- A response from a partner has to wait: no pair is expected from it, or the response brings a
-- qubit for an address that is in use.
def Stuck (t : Node) (p : Partner) (r : Response) : Prop :=
  t.queue p = [] ∨ r.isKeep = true ∧ ∃ task rest v, ∃ pair : Nat,
      t.queue p = task :: rest ∧ task.total - task.left = pair ∧
        Addressed t task pair v ∧ t.inUse task.subroutine v = true

def AllStuck (t : Node) (rs : List Response) : Prop :=
  ∀ r ∈ rs, ∀ p, partner? t.id r = some p → Stuck t p r

namespace Routed
variable (hProper : Proper s requests all)
include hProper
theorem addressed (hRouted : Routed s requests all rs n t)
    (hResponse : (fromPartner s.id p all)[k]? = some r)
    (hSlot : (pairsOf p requests)[k]? = some (task, pair)) (hKeep : r.isKeep = true) :
    ∃ v, Addressed t task pair v := by
  rcases hProper.addressed hResponse hSlot hKeep with ⟨v, hAddressed⟩
  have hMember := (mem_pairsOf.mp (mem_of_getElem? hSlot)).1
  refine ⟨v, ?_, ?_, ?_⟩
  · rcases Option.bind_eq_some_iff.mp hAddressed.address with ⟨a, hQubits, hRest⟩
    rcases Option.bind_eq_some_iff.mp hRest with ⟨b, hBlock, hEntry⟩
    have hQubits' : task.qubits = some a := hQubits
    have hBlock' : t.blockOf task.subroutine a = some b :=
      (hRouted.apps.blockOf_eq _ _).trans hBlock
    have hKept : t.heap.get b = s.heap.get b := by
      refine hRouted.kept b fun q hq hSame => ?_
      exact hProper.addresses _ hMember q hq a hQubits (hBlock.trans hSame.symm)
    rw [addressOf, hQubits', Option.bind_some, hBlock', Option.bind_some, hKept]
    exact hEntry
  · rcases hAddressed.inside with ⟨unit, hUnit, hLow, hHigh⟩
    have hSize := hRouted.apps.unitFor_size task.subroutine
    have hUnit' : s.unitFor task.subroutine = some unit := hUnit
    rw [hUnit'] at hSize
    rcases Option.map_eq_some_iff.mp hSize with ⟨unit', hFound, hLength⟩
    exact ⟨unit', hFound, hLow, by rw [hLength]; exact hHigh⟩
  · rw [hRouted.apps.hardware_eq]
    exact hAddressed.fits

-- The response behind some that have to wait has to wait too, or it is stored.
theorem handleOne (hRouted : Routed s requests all (done ++ r :: todo) n t)
    (hDone : AllStuck t done) :
    effect (Node.handleOne done.length r) t = (.ok false, t) ∧ AllStuck t (done ++ [r]) ∨
      ∃ n' u, effect (Node.handleOne done.length r) t = (.ok true, u) ∧
        Routed s requests all (done ++ todo) n' u := by
  have hMember : r ∈ done ++ r :: todo := mem_append_right _ mem_cons_self
  rcases hRouted.granted r hMember with ⟨hGranted, hFits, p, hPartner⟩
  have hId := hRouted.apps.id_eq
  have hPartner' : partner? t.id r = some p := by
    rw [hId]
    exact hPartner
  have hMore : Stuck t p r → AllStuck t (done ++ [r]) := by
    refine fun hStuck => forall_mem_append.mpr ⟨hDone, forall_mem_singleton.mpr fun p' hp' => ?_⟩
    obtain rfl : p = p' := Option.some.inj (hPartner'.symm.trans hp')
    exact hStuck
  cases hQueue : t.queue p with
  | nil => exact .inl ⟨handleOne_waits hGranted.tag_ne_err hPartner' hQueue, hMore (.inl hQueue)⟩
  | cons task rest =>
    have hRefused : ∀ v, ∀ pair : Nat, task.total - task.left = pair → r.isKeep = true →
        Addressed t task pair v → t.inUse task.subroutine v = true →
        effect (Node.handleOne done.length r) t = (.ok false, t) ∧ AllStuck t (done ++ [r]) := by
      intro v pair hPair hKeep hAddressed hUsed
      refine ⟨?_, hMore (.inr ⟨hKeep, task, rest, v, pair, hQueue, hPair, hAddressed, hUsed⟩)⟩
      rw [handleOne_cons hGranted.tag_ne_err hPartner' hQueue, hPair, effect_bind]
      cases hGranted with
      | measure _ => cases hKeep
      | keep hTag =>
        rcases hAddressed.inside with ⟨unit, hUnit, _⟩
        rcases Option.bind_eq_some_iff.mp hUnit with ⟨app, hApp, _⟩
        simp [accept, Response.tag, hTag, acceptKeep, effect_bind, effect_appFor hApp,
          effect_virtualOf hAddressed hApp, effect_hasVirtual hApp, hUsed]
    by_cases hFirst : ∀ r' ∈ done, partner? s.id r' ≠ some p
    · rcases hRouted.next hFirst hPartner hQueue with ⟨hResponse, hSlot⟩
      have hTotal := (hRouted.counting p task (hQueue ▸ mem_cons_self)).2
      obtain ⟨pair, hPair⟩ : ∃ pair : Nat, task.total - task.left = pair :=
        ⟨(task.total - task.left).toNat, by omega⟩
      rw [hPair] at hSlot
      have hPairs := mem_pairsOf.mp (mem_of_getElem? hSlot)
      have hRoomy : Roomy t task pair := by
        rcases hProper.room _ hPairs.1 pair hPairs.2 with ⟨⟨b, hBlock, hRoom⟩, hWidth⟩
        refine ⟨⟨b, (hRouted.apps.blockOf_eq _ _).trans hBlock, ?_⟩, ?_⟩
        · rw [hRouted.sizes b]
          exact hRoom
        · rw [hRouted.apps.hardware_eq]
          exact hWidth
      have hStore : (r.isKeep = true →
          ∃ v, Addressed t task pair v ∧ t.inUse task.subroutine v = false) →
          ∃ n' u, effect (Node.handleOne done.length r) t = (.ok true, u) ∧
            Routed s requests all (done ++ todo) n' u := by
        intro hFree
        rcases handleOne_stores hGranted (hRouted.apps.hardware_eq ▸ hFits) hPartner' hQueue hPair
          hRoomy hFree with ⟨u, hDone, hStores⟩
        exact ⟨_, u, hDone, hRouted.store hProper hFirst hPartner hQueue hStores⟩
      by_cases hKeep : r.isKeep = true
      · rcases hRouted.addressed hProper hResponse hSlot hKeep with ⟨v, ⟨hAddress, hInside, hWidths⟩⟩
        have hAddressed : Addressed t task pair v := ⟨hAddress, hInside, hWidths⟩
        cases hUsed : t.inUse task.subroutine v with
        | true => exact .inl (hRefused v pair hPair hKeep hAddressed hUsed)
        | false => exact .inr (hStore fun _ => ⟨v, hAddressed, hUsed⟩)
      · exact .inr (hStore fun hIs => absurd hIs hKeep)
    · -- One from the same partner waits for its address, so this brings a qubit as well.
      push Not at hFirst
      rcases hFirst with ⟨r', hr', hSame⟩
      have hStuck := hDone r' hr' p (by rw [hId]; exact hSame)
      rcases hStuck with hEmpty | ⟨hKeep', task', rest', v, pair, hQueue', hPair, hAddressed, hUsed⟩
      · rw [hQueue] at hEmpty
        cases hEmpty
      · rw [hQueue] at hQueue'
        cases hQueue'
        have hTurn := (pairwise_append.mp hRouted.turns).2.2 r' hr' r mem_cons_self
        have hKeep := hTurn (hSame.trans hPartner.symm) hKeep'
        exact .inl (hRefused v pair hPair hKeep hAddressed hUsed)

-- All have to wait, or the first that need not is stored.
theorem handleFirst (hRouted : Routed s requests all (done ++ todo) n t)
    (hDone : AllStuck t done) :
    effect (Node.handleFirst done.length (todo.map .former)) t = (.ok false, t) ∧
        AllStuck t (done ++ todo) ∨
      ∃ rs' n' u, effect (Node.handleFirst done.length (todo.map .former)) t = (.ok true, u) ∧
        rs'.length + 1 = (done ++ todo).length ∧ Routed s requests all rs' n' u := by
  induction todo generalizing done with
  | nil =>
    rw [append_nil]
    exact .inl ⟨rfl, hDone⟩
  | cons r todo ih =>
    rcases hRouted.handleOne hProper hDone with ⟨hRefused, hStuck⟩ | ⟨n', u, hStored, hRouted'⟩
    · have hSplit : done ++ r :: todo = done ++ [r] ++ todo := by simp
      rw [hSplit] at hRouted
      have hRest := ih hRouted hStuck
      rw [length_append, ← hSplit] at hRest
      simp only [map_cons, Node.handleFirst, effect_bind, hRefused]
      exact hRest
    · refine .inr ⟨done ++ todo, n', u, ?_, ?_, hRouted'⟩
      · simp [Node.handleFirst, effect_bind, hStored]
      · simp only [length_append, length_cons]
        omega

-- Responses are stored until all that are left have to wait.
theorem drainFor (hRouted : Routed s requests all rs n t) (hRounds : rs.length ≤ rounds) :
    ∃ rs' n' u, effect (Node.drainFor rounds) t = (.ok ⟨⟩, u) ∧
      Routed s requests all rs' n' u ∧ AllStuck u rs' := by
  induction rounds generalizing rs n t with
  | zero =>
    obtain rfl : rs = [] := eq_nil_of_length_eq_zero (by omega)
    exact ⟨[], n, t, rfl, hRouted, by simp [AllStuck]⟩
  | succ rounds ih =>
    have hNone : AllStuck t [] := by simp [AllStuck]
    have hTry := Routed.handleFirst hProper (by exact hRouted) hNone
    rw [nil_append, length_nil, ← hRouted.pending_eq] at hTry
    rcases hTry with ⟨hRefused, hStuck⟩ | ⟨rs', n', u, hStored, _, hRouted'⟩
    · refine ⟨rs, n, t, ?_, hRouted, hStuck⟩
      simp [Node.drainFor, effect_bind, hRefused]
    · rcases ih hRouted' (by omega) with ⟨rs'', n'', u', hDrain, hEnd⟩
      refine ⟨rs'', n'', u', ?_, hEnd⟩
      simp only [Node.drainFor, effect_bind, effect_get, hStored]
      exact hDrain

theorem drain (hRouted : Routed s requests all rs n t) :
    ∃ rs' n' u, effect Node.drain t = (.ok ⟨⟩, u) ∧
      Routed s requests all rs' n' u ∧ AllStuck u rs' := by
  have hRounds : rs.length = t.pending.length := by rw [hRouted.pending_eq, length_map]
  exact hRouted.drainFor hProper (Nat.le_of_eq hRounds)

end Routed

---- Histories

-- Instructions about pairs and qubits, and responses that grant pairs with partners.
def Deed.Plain (s : Node) : Deed → Prop
  | instr _ _ i => concernsPairs i = true
  | arrive r => ∃ r' ∈ taken? r, r'.Granted ∧ r'.Fits s.hardware ∧ (partner? s.id r').isSome = true
  | retry => True

instance Deed.Plain.decidable (s : Node) : ∀ d : Deed, Decidable (d.Plain s)
  | .instr _ _ i => inferInstanceAs (Decidable (concernsPairs i = true))
  | .arrive r =>
    inferInstanceAs (Decidable
      (∃ r' ∈ taken? r, r'.Granted ∧ r'.Fits s.hardware ∧ (partner? s.id r').isSome = true))
  | .retry => isTrue trivial

def Deed.handles : Deed → Bool
  | instr _ _ _ => false
  | _ => true

-- A history in which all instructions succeed, the requests do not get into each other's way, and
-- the responses arrive with the right types and in turn.
@[mk_iff] structure Fair (ds : List Deed) (s : Node) : Prop where
  plain : ∀ d ∈ ds, d.Plain s
  instrs : answered isInstr ds s = true
  proper : Proper s (asked ds s) (arrived ds)
  turns : orderly ds s = true

instance Fair.decidable (ds : List Deed) (s : Node) : Decidable (Fair ds s) :=
  decidable_of_iff' _ (fair_iff ds s)

theorem Fair.of_append (hFair : Fair (ds ++ more) s) : Fair ds s := by
  have hInstrs := hFair.instrs
  have hProper := hFair.proper
  have hTurns := hFair.turns
  rw [answered_append, Bool.and_eq_true] at hInstrs
  rw [asked_append, arrived, filterMap_append] at hProper
  rw [orderly_append, Bool.and_eq_true] at hTurns
  exact ⟨fun d hd => hFair.plain d (mem_append_left _ hd), hInstrs.1, hProper.of_append, hTurns.1⟩

theorem Deed.of_effect (hAct : effect d.act t = (.ok ⟨⟩, u)) :
    d.answers t = true ∧ d.after t = u := by
  rw [answers, after, hAct]
  exact ⟨rfl, rfl⟩

theorem effect_handleResponse {r : NewResponse} (hTaken : taken? r = some r') (t : Node) :
    effect (handleResponse r) t = effect drain { t with pending := t.pending ++ [.former r'] } := by
  have hConvert : ∀ {c : Checked Response}, c.toOption = some r' → c = .ok r' := by
    intro c hSome
    cases c with
    | error e => cases hSome
    | ok a =>
      cases hSome
      rfl
  have hReceived : effect (received r) t = (.ok (.former r'), t) := by
    cases r with
    | former r =>
      cases hTaken
      rfl
    | prepare fs => cases hTaken
    | keep fs | measure fs | error fs =>
      rw [taken?] at hTaken
      simp only [received, effect_bind, effect_lift, hConvert hTaken, effect_pure]
  simp [handleResponse, effect_bind, hReceived]

namespace Routed
variable (hRouted : Routed s requests all rs n t)
include hRouted
theorem waiting_eq (p : Partner) : t.waiting p = fromPartner s.id p rs := by
  have hTaken : (rs.map NewResponse.former).filterMap taken? = rs := by
    rw [filterMap_map]
    exact filterMap_some
  rw [waiting, hRouted.pending_eq, hTaken, hRouted.apps.id_eq]

theorem turn {r : NewResponse} (hTaken : taken? r = some r')
    (hTurn : (Deed.arrive r).inTurn t = true) :
    ∀ w ∈ rs, partner? s.id w = partner? s.id r' → w.isKeep = true → r'.isKeep = true := by
  intro w hw hSame hKeep
  rcases hRouted.granted w hw with ⟨_, _, p, hPartner⟩
  have hWaits : w ∈ t.waiting p := by
    rw [hRouted.waiting_eq]
    exact mem_filter.mpr ⟨hw, by simpa using hPartner⟩
  have hPartner' : partner? t.id r' = some p := by
    rw [hRouted.apps.id_eq, ← hSame]
    exact hPartner
  simp only [Deed.inTurn, hTaken, Option.all_some, hPartner', Bool.or_eq_true, all_eq_true,
    Bool.not_eq_true'] at hTurn
  rcases hTurn with hIs | hNone
  · exact hIs
  · rw [hNone w hWaits] at hKeep
    cases hKeep

theorem step (hPlain : d.Plain s) (hInstr : d.isInstr = true → d.answers t = true)
    (hTurn : d.inTurn t = true)
    (hProper : Proper s (requests ++ d.asks t) (all ++ d.brings?.toList)) :
    d.answers t = true ∧ ∃ rs' n',
      Routed s (requests ++ d.asks t) (all ++ d.brings?.toList) rs' n' (d.after t) ∧
        (d.handles = true → AllStuck (d.after t) rs') := by
  cases d with
  | instr sub line i =>
    have hAnswers := hInstr rfl
    refine ⟨hAnswers, rs, n, ?_, fun hHandles => by cases hHandles⟩
    rcases hExecute : effect (execute sub line i) t with ⟨e | _, u⟩
    · simp only [answers, act, effect_bind, hExecute] at hAnswers
      cases hAnswers
    · have hAct : effect (instr sub line i).act t = (.ok ⟨⟩, u) := by
        simp only [act, effect_bind, hExecute, effect_pure]
      rw [(of_effect hAct).2]
      simp only [brings?, Option.toList_none, append_nil] at hProper ⊢
      refine hRouted.ask (instr_asks hPlain hExecute) ?_ hProper
      exact fun q hq => fresh_of_request? (Option.mem_toList.mp hq)
  | arrive r =>
    rcases hPlain with ⟨_, hTaken, hGranted, hFits, hPartner⟩
    rw [Option.mem_def] at hTaken
    rw [Option.isSome_iff_exists] at hPartner
    simp only [asks, brings?, hTaken, append_nil] at hProper ⊢
    rcases (hRouted.arrive ⟨hGranted, hFits, hPartner⟩ (hRouted.turn hTaken hTurn)).drain hProper with
      ⟨rs', n', u, hDrain, hEnd, hStuck⟩
    have hAct : effect (Deed.arrive r).act t = (.ok ⟨⟩, u) :=
      (effect_handleResponse hTaken t).trans hDrain
    rw [(of_effect hAct).2]
    exact ⟨(of_effect hAct).1, rs', n', hEnd, fun _ => hStuck⟩
  | retry =>
    simp only [asks, brings?, Option.toList_none, append_nil] at hProper ⊢
    rcases hRouted.drain hProper with ⟨rs', n', u, hDrain, hEnd, hStuck⟩
    have hAct : effect retry.act t = (.ok ⟨⟩, u) := hDrain
    rw [(of_effect hAct).2]
    exact ⟨(of_effect hAct).1, rs', n', hEnd, fun _ => hStuck⟩

end Routed

theorem routed_after (hPending : s.pending = []) (hQueues : ∀ p, s.queue p = [])
    (hFair : Fair ds s) :
    answered (fun _ => true) ds s = true ∧ ∃ rs n,
      Routed s (asked ds s) (arrived ds) rs n (after ds s) ∧
        (∀ d ∈ ds.getLast?, d.handles = true → AllStuck (after ds s) rs) := by
  induction ds using List.reverseRecOn with
  | nil => exact ⟨rfl, [], fun _ => 0, .start hPending hQueues, by simp⟩
  | append_singleton ds d ih =>
    rcases ih hFair.of_append with ⟨hAnswered, rs, n, hRouted, _⟩
    have hInstrs := hFair.instrs
    have hProper := hFair.proper
    have hTurns := hFair.turns
    have hAsked : asked (ds ++ [d]) s = asked ds s ++ d.asks (after ds s) := by
      rw [asked_append, asked, asked, append_nil]
    have hArrived : arrived (ds ++ [d]) = arrived ds ++ d.brings?.toList := by
      cases hBrings : d.brings? <;> simp [arrived, hBrings]
    have hAfter : after (ds ++ [d]) s = d.after (after ds s) := foldl_append ..
    rw [answered_append, answered, answered, Bool.and_true, Bool.and_eq_true,
      Bool.or_eq_true] at hInstrs
    rw [orderly_append, orderly, orderly, Bool.and_true, Bool.and_eq_true] at hTurns
    rw [hAsked, hArrived] at hProper
    have hInstr : d.isInstr = true → d.answers (after ds s) = true := by
      intro hIs
      rcases hInstrs.2 with hNot | hAnswers
      · rw [hIs] at hNot
        cases hNot
      · exact hAnswers
    rcases hRouted.step (hFair.plain d (by simp)) hInstr hTurns.2 hProper with
      ⟨hAnswers, rs', n', hEnd, hStuck⟩
    rw [hAsked, hArrived, hAfter, answered_append, answered, hAnswered, hAnswers]
    refine ⟨rfl, rs', n', hEnd, ?_⟩
    intro d' hd'
    rw [getLast?_append] at hd'
    obtain rfl : d = d' := Option.some.inj hd'
    exact hStuck

/-
  The responses from a partner behind a history: so many of them are in the rows of the first pairs
  that the partner was asked for, in order, the others are pending, and the rows of the other pairs
  are as they were and are still expected.
-/
structure Delivered (s t : Node) (pairs : List (PairTask × Nat)) (rs : List Response) (p : Partner)
    (n : Nat) : Prop where
  few : n ≤ rs.length ∧ n ≤ pairs.length
  stored :
    ∀ k slot, pairs[k]? = some slot → k < n → t.rowOf slot.1 slot.2 = (rs[k]?).map Response.values
  open_eq : ∀ k slot, pairs[k]? = some slot → n ≤ k → t.rowOf slot.1 slot.2 = s.rowOf slot.1 slot.2
  waiting_eq : t.waiting p = rs.drop n
  expected_eq : pairsLeft (t.queue p) = pairs.drop n

theorem Routed.delivered (hRouted : Routed s requests all rs n t) (p : Partner) :
    Delivered s t (pairsOf p requests) (fromPartner s.id p all) p (n p) where
  few := hRouted.few p
  stored k slot hSlot hStored := by rw [hRouted.rows p k slot hSlot, if_pos hStored]
  open_eq k slot hSlot hOpen := by rw [hRouted.rows p k slot hSlot, if_neg (by omega)]
  waiting_eq := by rw [hRouted.waiting_eq, hRouted.left]
  expected_eq := hRouted.expected p

-- The next response that has to wait brings a qubit for an address in use.
theorem Routed.blocked (hRouted : Routed s requests all rs n t) (hStuck : AllStuck t rs)
    (hResponse : (fromPartner s.id p all)[n p]? = some r)
    (hSlot : (pairsOf p requests)[n p]? = some slot) :
    r.isKeep = true ∧ ∃ v, t.addressOf slot.1 slot.2 = some v ∧ t.inUse slot.1.subroutine v = true := by
  have hWaits : r ∈ fromPartner s.id p rs := by
    rw [hRouted.left p]
    refine mem_of_getElem? (i := 0) ?_
    rw [getElem?_drop]
    exact hResponse
  rcases mem_filter.mp hWaits with ⟨hMember, hPartner⟩
  have hFrom : partner? t.id r = some p := by
    rw [hRouted.apps.id_eq]
    simpa using hPartner
  have hExpected := hRouted.expected p
  rcases hStuck r hMember p hFrom with hEmpty | ⟨hKeep, task, _, v, pair, hQueue, hPair, hAddressed, hUsed⟩
  · rw [hEmpty] at hExpected
    have hLast := (List.getElem?_eq_some_iff.mp hSlot).1
    have hNone := drop_eq_nil_iff.mp hExpected.symm
    omega
  · have hCounting := hRouted.counting p task (hQueue ▸ mem_cons_self)
    rw [hQueue, pairsLeft_cons hCounting, hPair] at hExpected
    obtain rfl : ({ task with left := task.total }, pair) = slot :=
      Option.some.inj ((getElem?_of_drop hExpected.symm).symm.trans hSlot)
    exact ⟨hKeep, v, hAddressed.address, hUsed⟩

/-
  Responses reach their own pairs. In a fair history from a node that expects nothing, each deed is
  answered. The first responses from each partner are in the rows of the first pairs that it was
  asked for and the others are pending. No array changes that is not for results. Whenever pending
  responses have just been handled, the next one from a partner waits only for a pair to be asked
  for or for its address to be freed.
-/
theorem responses_routed
    (ds : List Deed)
    (s : Node)
    (hPending : s.pending = [])
    (hQueues : ∀ p, s.queue p = [])
    (hFair : Fair ds s) :
    answered (fun _ => true) ds s = true ∧
    ∃ n : Partner → Nat,
      (∀ p, Delivered s (after ds s) (pairsOf p (asked ds s)) (fromPartner s.id p (arrived ds)) p
        (n p)) ∧
      (∀ b, (∀ q ∈ asked ds s, s.resultsOf q.2 ≠ some b) → (after ds s).heap.get b = s.heap.get b) ∧
      (∀ d ∈ ds.getLast?, d.handles = true → ∀ p r slot,
        (fromPartner s.id p (arrived ds))[n p]? = some r →
        (pairsOf p (asked ds s))[n p]? = some slot →
          r.isKeep = true ∧ ∃ v, (after ds s).addressOf slot.1 slot.2 = some v ∧
            (after ds s).inUse slot.1.subroutine v = true) := by
  rcases routed_after hPending hQueues hFair with ⟨hAnswered, rs, n, hRouted, hStuck⟩
  refine ⟨hAnswered, n, hRouted.delivered, hRouted.kept, ?_⟩
  intro d hd hHandles p r slot hResponse hSlot
  exact hRouted.blocked (hStuck d hd hHandles) hResponse hSlot

---- Histories with a qubit in the way

def loading (r : Reg) (v : Int) : Deed := .instr 0 0 (core .set [.reg r, .imm v])

def keptFrom (remote qubit sequence : Int) : Response :=
  .keep { keptIn qubit with sequence := .int sequence, remoteNode := .int remote }

def measuredFrom (remote sequence : Int) : Response :=
  .measure {
    tag := .okMeasure
    createId := .int 0
    outcome := .int 1
    basis := .int 0
    direction := .int 1
    sequence := .int sequence
    purpose := .int 0
    remoteNode := .int remote
    goodness := .int 0
    bellState := .int 0 }

-- A subroutine with two qubits, two addresses for pairs, and arrays for three results.
def ready : Node :=
  { Node.fresh "alice" 0 .vanilla false true with
    registers := [(0, [])]
    arrays := [(0, [(0, 0), (1, 1), (2, 2)])]
    heap := ⟨#[[some 0, some 1], List.replicate 20 none, List.replicate 10 none]⟩
    units := [(0, [none, none])]
    subroutines := [(0, some 0)] }

-- The first qubit is in use, and pairs are asked of two nodes: two that are kept, and one that is
-- measured.
def requesting (second : Int) : List Deed :=
  [ loading ⟨.q, 0⟩ 0, .instr 0 1 (core .qalloc [.reg ⟨.q, 0⟩]),
    loading ⟨.r, 0⟩ 0, loading ⟨.r, 1⟩ 1, loading ⟨.r, 2⟩ 2, loading ⟨.r, 3⟩ second,
    .instr 0 2 (core .recvEpr [.reg ⟨.r, 1⟩, .reg ⟨.r, 0⟩, .reg ⟨.r, 0⟩, .reg ⟨.r, 1⟩]),
    .instr 0 3 (core .recvEpr [.reg ⟨.r, 3⟩, .reg ⟨.r, 0⟩, .reg ⟨.c, 0⟩, .reg ⟨.r, 2⟩]) ]

-- A response overtakes two that wait for the first qubit, which is freed at last.
def overtaking : List Deed :=
  requesting 2 ++ [ .arrive (.former (keptFrom 1 5 7)), .arrive (.former (keptFrom 1 6 8)),
      .arrive (.former (measuredFrom 2 9)),
      .instr 0 4 (core .qfree [.reg ⟨.q, 0⟩]), .retry ]

theorem responses_routed_overtaking :
    ready.pending = [] ∧ Fair overtaking ready ∧
      (after (overtaking.take 11) ready).waiting ⟨false, (1, 0)⟩ =
        [keptFrom 1 5 7, keptFrom 1 6 8] ∧
      ∃ n : Partner → Nat, n ⟨false, (1, 0)⟩ = 2 ∧ n ⟨false, (2, 0)⟩ = 1 ∧
        ∀ p, Delivered ready (after overtaking ready) (pairsOf p (asked overtaking ready))
          (fromPartner ready.id p (arrived overtaking)) p (n p) := by
  have hFair : Fair overtaking ready := by decide +kernel
  have hQueues : ∀ p, ready.queue p = [] := by
    rintro ⟨isCreator, key⟩
    cases isCreator <;> rfl
  rcases responses_routed overtaking ready rfl hQueues hFair with ⟨_, n, hDelivered, _⟩
  have hCount : ∀ p, pairsLeft ((after overtaking ready).queue p) = [] →
      n p = (pairsOf p (asked overtaking ready)).length := by
    intro p hNone
    have hFew := (hDelivered p).few.2
    have hLeft := congrArg List.length (hDelivered p).expected_eq
    rw [hNone, length_drop, length_nil] at hLeft
    omega
  refine ⟨rfl, hFair, by decide +kernel, n, ?_, ?_, hDelivered⟩
  · exact (hCount _ (by decide +kernel)).trans (by decide +kernel)
  · exact (hCount _ (by decide +kernel)).trans (by decide +kernel)

-- One node grants all pairs, and the response without a qubit overtakes.
def mixed : List Deed :=
  requesting 1 ++ [ .arrive (.former (keptFrom 1 5 7)), .arrive (.former (keptFrom 1 6 8)),
      .arrive (.former (measuredFrom 1 9)) ]

-- The third response is stored for the first pair. All that is missing for a fair history is that
-- it arrives in turn.
theorem response_misrouted :
    (∀ d ∈ mixed, d.Plain ready) ∧
      answered Deed.isInstr mixed ready = true ∧
      Proper ready (asked mixed ready) (arrived mixed) ∧
      fromPartner ready.id ⟨false, (1, 0)⟩ (arrived mixed) =
        [keptFrom 1 5 7, keptFrom 1 6 8, measuredFrom 1 9] ∧
      pairsOf ⟨false, (1, 0)⟩ (asked mixed ready) =
        [(⟨0, 1, some 0, 2, 2⟩, 0), (⟨0, 1, some 0, 2, 2⟩, 1), (⟨0, 2, none, 1, 1⟩, 0)] ∧
      (after mixed ready).rowOf ⟨0, 1, some 0, 2, 2⟩ 0 = some (measuredFrom 1 9).values := by
  decide +kernel

end QuantumNode.Node
