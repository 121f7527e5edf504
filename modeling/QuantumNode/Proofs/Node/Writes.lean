import Mathlib.Data.List.Nodup
import QuantumNode.Proofs.Node.Changes

/-
  Writes to arrays.  The places of a slice are distinct and inside
  of the array.  So a write is refused and changes nothing, or it
  keeps all sizes, changes only entries that it selects, and is
  read back.
-/

open List

namespace QuantumNode

open Checked Table

namespace Slice

variable {s : Slice} {step : Int}

theorem ends_inside (size : Nat) (descending : Bool) :
    (-descending.toNat ≤ s.first size descending ∧
      s.first size descending ≤ size - descending.toNat) ∧
    -descending.toNat ≤ s.last size descending ∧
      s.last size descending ≤ size - descending.toNat := by
  rcases s with ⟨_ | lo, _ | hi, _⟩ <;> cases descending <;> grind [first, last, clip]

theorem clip_inside {size : Nat} {i : Int} {descending : Bool}
    (hInside : 0 ≤ i ∧ i ≤ size - descending.toNat) : clip size descending i = i := by
  cases descending <;> grind [clip]

theorem step_inside (hStep : step ≠ 0)
    (hk : k < count (s.first size (step < 0)) (s.last size (step < 0)) step) :
    0 ≤ s.first size (step < 0) + k * step ∧ s.first size (step < 0) + k * step < size := by
  have hEnds := ends_inside (s := s) size (step < 0)
  generalize s.first size (step < 0) = start at *
  generalize s.last size (step < 0) = stop at *
  unfold count at hk
  rcases Int.lt_or_gt_of_ne hStep with hDown | hUp
  · have hPositive := Int.neg_pos_of_neg hDown
    have hFar : (k : Int) * -step ≤ start - stop - 1 := Int.mul_le_of_le_ediv hPositive (by grind)
    have := Int.mul_nonneg (Int.natCast_nonneg k) (Int.le_of_lt hPositive)
    grind
  · have hFar : (k : Int) * step ≤ stop - start - 1 := Int.mul_le_of_le_ediv hUp (by grind)
    have := Int.mul_nonneg (Int.natCast_nonneg k) (Int.le_of_lt hUp)
    grind

theorem positions_inside (hPlaces : s.positions size = .ok places) :
    places.Nodup ∧ ∀ p ∈ places, p < size := by
  simp only [positions] at hPlaces
  split at hPlaces <;> cases hPlaces
  rename_i hStep
  constructor
  · refine Nodup.map_on ?_ nodup_range
    intro k hk j hj hSame
    have := step_inside hStep (mem_range.mp hk)
    have := step_inside hStep (mem_range.mp hj)
    have hTimes : (k : Int) * s.step.getD 1 = j * s.step.getD 1 := by
      simp only [Int.ofNat_eq_natCast] at hSame
      omega
    exact Int.ofNat_inj.mp (Int.eq_of_mul_eq_mul_right hStep hTimes)
  · simp only [mem_map, mem_range, Int.ofNat_eq_natCast]
    rintro _ ⟨k, hk, rfl⟩
    have := step_inside hStep hk
    omega

end Slice

namespace Block

variable {b values : Block} {places : List Nat}

theorem length_writeMany : (b.writeMany places values).length = b.length := by
  fun_induction writeMany with
  | case1 b p places v values ih => rw [ih, length_set]
  | case2 => rfl

theorem getElem?_writeMany (hOther : p ∉ places) : (b.writeMany places values)[p]? = b[p]? := by
  fun_induction writeMany with
  | case1 b q places v values ih =>
    rw [mem_cons, not_or] at hOther
    rw [ih hOther.2, getElem?_set_ne (Ne.symm hOther.1)]
  | case2 => rfl

theorem read_writeMany (hDistinct : places.Nodup) (hInside : ∀ p ∈ places, p < b.length)
    (hLength : places.length = values.length) :
    (places.filterMap fun p => (b.writeMany places values)[p]?) = values := by
  induction places generalizing b values with
  | nil => exact (eq_nil_of_length_eq_zero hLength.symm).symm
  | cons p places ih =>
    cases values with
    | nil => cases hLength
    | cons v values =>
      rcases nodup_cons.mp hDistinct with ⟨hNew, hRest⟩
      rcases forall_mem_cons.mp hInside with ⟨hFirst, hOthers⟩
      have hHere : (writeMany (b.set p v) places values)[p]? = some v := by
        rw [getElem?_writeMany hNew, getElem?_set_self hFirst]
      rw [writeMany, filterMap_cons_some hHere,
        ih hRest (by simpa using hOthers) (Nat.succ.inj hLength)]

end Block

namespace Heap

variable {h : Heap} {b : Block} {places : List Nat} (hLength : b.length = (h.get n).length)
include hLength

theorem get_resized : (h.set n b).get n = b := by
  by_cases hInside : n < h.blocks.size
  · exact get_set_self hInside _
  · have hNone : b = [] := eq_nil_of_length_eq_zero (by simpa [get, hInside] using hLength)
    simp [hNone, get, set, hInside]

-- All blocks keep their sizes, and their entries but for some places of one block.
theorem set_confined (hOthers : ∀ p ∉ places, b[p]? = (h.get n)[p]?) (m : Nat) :
    ((h.set n b).get m).length = (h.get m).length ∧
      ∀ p, ((h.set n b).get m)[p]? = (h.get m)[p]? ∨ m = n ∧ p ∈ places := by
  by_cases hSame : m = n
  · rw [hSame, get_resized hLength]
    refine ⟨hLength, fun p => ?_⟩
    by_cases hPlace : p ∈ places
    · exact .inr ⟨rfl, hPlace⟩
    · exact .inl (hOthers p hPlace)
  · rw [get_set_of_ne hSame]
    exact ⟨rfl, fun _ => .inl rfl⟩

end Heap

namespace Node

/-
  What a write under a key does: it is refused and nothing
  changes, or no block changes its size, no entry changes but
  those of the array that the key selects, and the value is read
  back.
-/
def Confined {α : Type} (app address : Int) (select : Nat → List Nat) (write : NodeM Unit)
    (read : NodeM α) (value : α) : Prop :=
  ∀ s, (∃ fault, effect write s = (.error fault, s)) ∨
    ∃ arrays n heap, get? app s.arrays = some arrays ∧ get? address arrays = some n ∧
      (∀ m, (heap.get m).length = (s.heap.get m).length ∧ ∀ p, (heap.get m)[p]? = (s.heap.get m)[p]? ∨
        m = n ∧ p ∈ select (s.heap.get n).length) ∧
      effect write s = (.ok (), { s with heap := heap }) ∧
      effect read { s with heap := heap } = (.ok value, { s with heap := heap })

theorem confined_of_block (write : Bool → Heap → Arrays → Checked Heap)
    (read : Bool → Heap → Arrays → Checked α)
    (hWrite : ∀ hardware heap arrays heap', write hardware heap arrays = .ok heap' →
      ∃ n b, get? address arrays = some n ∧ heap' = heap.set n b ∧
        b.length = (heap.get n).length ∧
        (∀ p ∉ select (heap.get n).length, b[p]? = (heap.get n)[p]?) ∧
        read hardware heap' arrays = .ok value) :
    Confined app address select
      (do
        let arrays ← arraysOf app
        let s ← get
        set { s with heap := ← write s.hardware s.heap arrays })
      (do
        let arrays ← arraysOf app
        let s ← get
        read s.hardware s.heap arrays) value := by
  intro s
  rcases arraysOf_cases app s with ⟨e, hRefused⟩ | ⟨arrays, hArrays, hFound⟩
  · exact .inl ⟨e, by rw [effect_bind, hRefused]⟩
  · cases hDone : write s.hardware s.heap arrays with
    | error e => exact .inl ⟨e, by simp [effect_bind, hFound, hDone]⟩
    | ok heap =>
      rcases hWrite _ _ _ _ hDone with ⟨n, b, hBlock, rfl, hLength, hOthers, hRead⟩
      refine .inr ⟨arrays, n, _, hArrays, hBlock, Heap.set_confined hLength hOthers, ?_, ?_⟩
      · simp [effect_bind, hFound, hDone]
      · simp [effect_bind, arraysOf, hArrays, hRead]

theorem writes_confined (app address : Int) :
    (∀ i v, Confined app address (fun size => (place? size i).toList)
      (writePlace app address i v) (readPlace app address i) v) ∧
    ∀ slice values, Confined app address (fun size => (slice.positions size).toOption.getD [])
      (writeSlice app address slice values) (readSlice app address slice) (some values) := by
  constructor
  · intro i v
    refine confined_of_block (Arrays.writeAt · · · address i v) (Arrays.readAt · · · address i) ?_
    intro hardware heap arrays heap' hWrite
    rcases bind_ok hWrite with ⟨_, hWidth, _⟩
    rcases Arrays.writeAt_block hWrite with ⟨n, p, hBlock, hPlace, rfl⟩
    have hInside : p < (heap.get n).length := by grind [place?]
    refine ⟨n, _, hBlock, rfl, length_set, fun q hq => ?_, ?_⟩
    · exact getElem?_set_ne (by rintro rfl; simp [hPlace] at hq)
    · simp [Arrays.readAt, hWidth, hBlock, Heap.get_resized, Block.readAt, hPlace, hInside]
  · intro slice values
    refine confined_of_block (Arrays.writeSlice · · · address slice values)
      (Arrays.readSlice · · · address slice) ?_
    intro hardware heap arrays heap' hWrite
    rcases bind_ok hWrite with ⟨_, hWidth, _⟩
    rcases Arrays.writeSlice_ok hWrite with ⟨n, b, hBlock, rfl, _, hMany⟩
    rcases binds_ok hMany with ⟨places, hPlaces, _, hLength, ⟨⟩⟩
    rcases Slice.positions_inside hPlaces with ⟨hDistinct, hInside⟩
    have hRead := Block.read_writeMany hDistinct hInside (of_decide_eq_true (demand_ok hLength))
    refine ⟨n, _, hBlock, rfl, Block.length_writeMany, fun q hq => ?_, ?_⟩
    · rw [hPlaces] at hq
      exact Block.getElem?_writeMany hq
    · simp only [Arrays.readSlice, hWidth, hBlock, Heap.get_resized Block.length_writeMany,
        Block.readSlice, Block.length_writeMany, hPlaces]
      exact congrArg (Except.ok ∘ some) hRead

end Node

end QuantumNode
