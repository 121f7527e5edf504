import Mathlib.Tactic.MkIffOfInductiveProp
import QuantumNode.Proofs.Node.Unshared

/-
  What a node does with one response: it leaves it where it is if no pair is expected or if the
  address for the pair is in use, and otherwise it stores it for the first pair that is expected
  from the partner.
-/

open List

namespace QuantumNode
open Block Response Slice Table Option
variable {unit : Block} {hardware : Bool} {v : Int} {k : KeepOk} {pair : Nat} {r : Response}
variable {app : Int} {rest : List PairTask} {n sub : Nat} {task : PairTask}
namespace Block

-- As many entries of a block as are asked for, from a place on.
def row (b : Block) (start n : Nat) : Block := (b.drop start).take n

def replaced (b : Block) (start : Nat) (values : Block) : Block :=
  b.take start ++ values ++ b.drop (start + values.length)

variable {b values : Block} {start : Nat}

theorem writeMany_range' (hInside : start + values.length ≤ b.length) :
    writeMany b (List.range' start values.length) values = b.replaced start values := by
  induction values generalizing b start with
  | nil => simp [writeMany, replaced]
  | cons v values ih =>
    rw [length_cons] at hInside
    have hRest : start + 1 + values.length ≤ (b.set start v).length := by
      rw [length_set]
      omega
    have hHere : start < b.length := by omega
    rw [length_cons, range'_succ, writeMany, ih hRest]
    unfold replaced
    rw [drop_set, take_set,
      take_succ_eq_append_getElem hHere, set_append_right _ _ (by rw [length_take]; omega),
      show start + 1 + values.length = start + (values.length + 1) by omega]
    have hPlace : start - (b.take start).length = 0 := by
      rw [length_take]
      omega
    rw [hPlace]
    simp

-- Of a slice, the places that the block has.
theorem positions_between (size : Nat) :
    (between start (start + n : Nat)).positions size =
      .ok (List.range' (min start size) (min (start + n) size - min start size)) := by
  have hClip : ∀ bound : Nat, clip size false bound = (min bound size : Nat) := by
    intro bound
    unfold clip
    simp only [Bool.false_eq_true, if_false]
    split <;> omega
  have hCount : count (min start size : Nat) (min (start + n) size : Nat) 1 =
      min (start + n) size - min start size := by
    unfold Slice.count
    rw [if_pos (by decide)]
    split <;> omega
  change Except.ok ((List.range (count (clip size false start)
    (clip size false (start + n : Nat)) 1)).map fun k =>
      (clip size false start + Int.ofNat k * 1).toNat) = _
  rw [hClip, hClip, hCount, range'_eq_map_range]
  congr 1
  refine map_congr_left fun k _ => ?_
  change ((min start size : Nat) + (k : Int) * 1).toNat = min start size + k
  omega

-- A row that was written had its place.
theorem inside_of_writeSlice (hSome : 0 < values.length)
    (hWrite : b.writeSlice (.between start (start + values.length : Nat)) values = .ok b') :
    start + values.length ≤ b.length := by
  rcases Checked.binds_ok hWrite with ⟨_, hPlaces, _, hDemand, _⟩
  cases (positions_between _).symm.trans hPlaces
  have hCount := of_decide_eq_true (demand_ok hDemand)
  rw [length_range'] at hCount
  omega

section
variable (hInside : start + values.length ≤ b.length)
include hInside
theorem writeSlice_between :
    b.writeSlice (.between start (start + values.length : Nat)) values =
      .ok (b.replaced start values) := by
  simp only [writeSlice, positions_between, Nat.min_eq_left hInside,
    Nat.min_eq_left (Nat.le_of_add_right_le hInside)]
  simp [demand, bind, Except.bind, pure, Except.pure, writeMany_range' hInside]

@[simp] theorem length_replaced : (b.replaced start values).length = b.length := by
  simp only [replaced, length_append, length_take, length_drop]
  omega

theorem row_replaced_self : (b.replaced start values).row start values.length = values := by
  have hStart : (b.take start).length = start := by
    rw [length_take]
    omega
  unfold row replaced
  rw [append_assoc, drop_append_of_le_length (by omega)]
  simp

theorem row_replaced_apart (hApart : other + n ≤ start ∨ start + values.length ≤ other) :
    (b.replaced start values).row other n = b.row other n := by
  unfold row replaced
  apply ext_getElem?
  intro i
  simp only [getElem?_take, getElem?_drop]
  by_cases hi : i < n
  · simp only [hi, if_true]
    rcases hApart with hBefore | hBehind
    · rw [append_assoc, getElem?_append_left (by rw [length_take]; omega),
        getElem?_take, if_pos (by omega)]
    · have hLength : (b.take start ++ values).length = start + values.length := by
        rw [length_append, length_take]
        omega
      rw [getElem?_append_right (by omega), getElem?_drop]
      congr 1
      omega
  · simp [hi]

end

theorem checkWidth_ok (hFits : hardware = true → fits v = true) :
    checkWidth hardware v = .ok () := by
  cases hardware with
  | false => rfl
  | true => simp [checkWidth, demand, hFits rfl]

theorem checkRow_ok (hFits : hardware = true → ∀ v ∈ values, ∀ x ∈ v, fits x = true)
    (hLength : hardware = true → fits values.length = true) :
    checkRow hardware values = .ok () := by
  have hEach : checkWidths hardware values = .ok () := by
    clear hLength
    fun_induction checkWidths hardware values with
    | case1 => rfl
    | case2 rest ih => exact ih fun hHardware v hv => hFits hHardware v (mem_cons_of_mem _ hv)
    | case3 x rest ih =>
      rw [checkWidth_ok fun hHardware => hFits hHardware _ mem_cons_self x rfl]
      exact ih fun hHardware v hv => hFits hHardware v (mem_cons_of_mem _ hv)
  simp only [checkRow, hEach, checkWidth_ok hLength]
  rfl

end Block

namespace Heap
variable {h : Heap}

theorem get_set_self (hInside : n < h.blocks.size) (b : Block) : (h.set n b).get n = b := by
  simp [Heap.get, Heap.set, hInside]

theorem get_set_of_ne (hOther : m ≠ n) (b : Block) : (h.set n b).get m = h.get m := by
  simp [Heap.get, Heap.set, Array.getElem?_setIfInBounds_ne hOther.symm]

theorem inside_of_get (hEntries : 0 < (h.get n).length) : n < h.blocks.size := by
  by_cases hInside : n < h.blocks.size
  · exact hInside
  · simp [Heap.get, hInside] at hEntries

end Heap

namespace Response

-- A pair that was kept or measured, marked as such.
inductive Granted : Response → Prop
  | keep {k : KeepOk} : k.tag = .okKeep → Granted (.keep k)
  | measure {m : MeasureOk} : m.tag = .okMeasure → Granted (.measure m)

instance Granted.decidable : ∀ r : Response, Decidable r.Granted
  | .keep k => decidable_of_iff (k.tag = .okKeep) ⟨.keep, fun h => by cases h; assumption⟩
  | .measure m => decidable_of_iff (m.tag = .okMeasure) ⟨.measure, fun h => by cases h; assumption⟩
  | .prepare _ => isFalse fun h => by cases h
  | .error _ => isFalse fun h => by cases h

def isKeep : Response → Bool
  | keep _ => true
  | _ => false

-- On hardware, all numbers of a response fit into 32 bits.
def Fits (hardware : Bool) (r : Response) : Prop :=
  hardware = true → ∀ v ∈ r.values, ∀ x ∈ v, fits x = true

instance Fits.decidable (hardware : Bool) (r : Response) : Decidable (r.Fits hardware) :=
  inferInstanceAs (Decidable (hardware = true → ∀ v ∈ r.values, ∀ x ∈ v, fits x = true))

theorem Granted.length_values (hGranted : r.Granted) : r.values.length = Node.resultFields := by
  cases hGranted <;> rfl

-- The slice for a pair is a row.
theorem Granted.rowSlice_eq (hGranted : r.Granted) :
    between ((pair : Int) * Node.resultFields) (((pair : Int) + 1) * Node.resultFields) =
      .between (Node.resultFields * pair : Nat)
        (Node.resultFields * pair + r.values.length : Nat) := by
  rw [hGranted.length_values]
  unfold Node.resultFields between
  congr 2 <;> omega

theorem Granted.tag_ne_err (hGranted : r.Granted) : r.tag ≠ .err := by
  cases hGranted with
  | keep hTag | measure hTag =>
    intro hError
    simp only [tag] at hError
    rw [hTag] at hError
    cases hError

end Response

namespace Node

-- A partner for pairs: the one that was asked or the one that asks, and by what key.
structure Partner where
  isCreator : Bool
  key : PairKey
  deriving DecidableEq

-- The partner that a response is from, at a node.
def partner? (id : Int) (r : Response) : Option Partner :=
  r.route?.map fun route =>
    ⟨decide ((if route.2.2 = 1 then route.2.1 else id) = id), (route.2.1, route.1)⟩

variable (s : Node)

def queue (p : Partner) : List PairTask := s.tasksOf p.isCreator p.key

def counted : List PairTask → List PairTask
  | [] => []
  | task :: rest => if task.left - 1 = 0 then rest else { task with left := task.left - 1 } :: rest

def withQueue (p : Partner) (ts : List PairTask) (s : Node) : Node :=
  s.setTasks p.isCreator (put p.key ts (s.tasks p.isCreator))

---- What belongs to a subroutine

def appFor (sub : Nat) : Option Int := (get? sub s.subroutines).join

def blockOf (sub : Nat) (address : Int) : Option Nat :=
  (s.appFor sub).bind fun app => (get? app s.arrays).bind fun arrays => get? address arrays

def unitFor (sub : Nat) : Option Block := (s.appFor sub).bind fun app => get? app s.units

def inUse (sub : Nat) (address : Int) : Bool :=
  (s.unitFor sub).any fun unit => decide (0 ≤ address) && ((unit[address.toNat]?).join).isSome

def addressOf (task : PairTask) (pair : Nat) : Option Int :=
  task.qubits.bind fun address =>
    (s.blockOf task.subroutine address).bind fun n => ((s.heap.get n)[pair]?).join

def rowOf (task : PairTask) (pair : Nat) : Option Block :=
  (s.blockOf task.subroutine task.results).map fun n =>
    (s.heap.get n).row (resultFields * pair) resultFields

-- The same applications with the same arrays and unit modules of the same sizes.
structure SameApps (s t : Node) : Prop where
  id_eq : t.id = s.id
  hardware_eq : t.hardware = s.hardware
  subroutines_eq : t.subroutines = s.subroutines
  arrays_eq : t.arrays = s.arrays
  sizes_eq : ∀ app, (get? app t.units).map List.length = (get? app s.units).map List.length

namespace SameApps
variable {s t u : Node}

protected theorem refl (s : Node) : SameApps s s := ⟨rfl, rfl, rfl, rfl, fun _ => rfl⟩

protected theorem trans (hFirst : SameApps s t) (hThen : SameApps t u) : SameApps s u :=
  ⟨hThen.id_eq.trans hFirst.id_eq, hThen.hardware_eq.trans hFirst.hardware_eq,
    hThen.subroutines_eq.trans hFirst.subroutines_eq, hThen.arrays_eq.trans hFirst.arrays_eq,
    fun app => (hThen.sizes_eq app).trans (hFirst.sizes_eq app)⟩

theorem appFor_eq (hSame : SameApps s t) (sub : Nat) : t.appFor sub = s.appFor sub := by
  rw [appFor, appFor, hSame.subroutines_eq]

theorem blockOf_eq (hSame : SameApps s t) (sub : Nat) (address : Int) :
    t.blockOf sub address = s.blockOf sub address := by
  rw [blockOf, blockOf, hSame.appFor_eq, hSame.arrays_eq]

theorem unitFor_size (hSame : SameApps s t) (sub : Nat) :
    (t.unitFor sub).map List.length = (s.unitFor sub).map List.length := by
  rw [unitFor, unitFor, hSame.appFor_eq]
  cases s.appFor sub with
  | none => rfl
  | some app => exact hSame.sizes_eq app

end SameApps

theorem sizes_put {units : Table Int Block} (hUnit : get? app units = some unit)
    (place : Nat) (entry : Option Int) (other : Int) :
    (get? other (put app (unit.set place entry) units)).map List.length =
      (get? other units).map List.length := by
  by_cases hSame : other = app
  · subst hSame
    rw [hUnit]
    simp
  · rw [get?_put_of_ne hSame]

section Queues
variable {s : Node} {p q : Partner} {ts : List PairTask}

@[simp] theorem queue_withQueue_self : (s.withQueue p ts).queue p = ts := by
  rcases p with ⟨isCreator, key⟩
  cases isCreator <;> simp [withQueue, queue, tasksOf, tasks, setTasks]

theorem queue_withQueue_of_ne (hOther : q ≠ p) : (s.withQueue p ts).queue q = s.queue q := by
  rcases p with ⟨isCreator, key⟩
  rcases q with ⟨isCreator', key'⟩
  cases isCreator <;> cases isCreator'
  case false.true | true.false => rfl
  all_goals
    have hKey : key' ≠ key := fun hSame => hOther (by rw [hSame])
    simp [withQueue, queue, tasksOf, tasks, setTasks, get?_put_of_ne hKey]

theorem withQueue_pending : (s.withQueue p ts).pending = s.pending := by
  rcases p with ⟨isCreator, key⟩
  cases isCreator <;> rfl

theorem withQueue_heap : (s.withQueue p ts).heap = s.heap := by
  rcases p with ⟨isCreator, key⟩
  cases isCreator <;> rfl

theorem withQueue_sameApps : SameApps s (s.withQueue p ts) := by
  rcases p with ⟨isCreator, key⟩
  cases isCreator <;> exact ⟨rfl, rfl, rfl, rfl, fun _ => rfl⟩

theorem effect_countPair (hQueue : s.queue p = task :: rest) :
    effect (countPair p.isCreator p.key) s = (.ok ⟨⟩, s.withQueue p (counted (task :: rest))) := by
  have hTasks : s.tasksOf p.isCreator p.key = task :: rest := hQueue
  simp only [countPair, effect_bind, effect_get, hTasks, counted]
  split <;> rfl

end Queues

section Parts
variable {s : Node}

theorem effect_appFor (hApp : s.appFor sub = some app) : effect (appOf sub) s = (.ok app, s) :=
  effect_appOf (join_eq_some_iff.mp hApp)

theorem blockOf_eq_some (hBlock : s.blockOf sub address = some n) :
    ∃ app arrays, s.appFor sub = some app ∧ get? app s.arrays = some arrays ∧
      get? address arrays = some n := by
  rcases bind_eq_some_iff.mp hBlock with ⟨app, hApp, hArrays⟩
  rcases bind_eq_some_iff.mp hArrays with ⟨arrays, hArrays, hNumber⟩
  exact ⟨app, arrays, hApp, hArrays, hNumber⟩

-- The results of a pair have a place in the array of a task.
@[mk_iff] structure Roomy (s : Node) (task : PairTask) (pair : Nat) : Prop where
  room : ∃ n, s.blockOf task.subroutine task.results = some n ∧
      resultFields * pair + resultFields ≤ (s.heap.get n).length
  fits : s.hardware = true →
      fits task.results = true ∧ fits (resultFields * pair + resultFields : Nat) = true

-- There is a virtual address for the qubit of a pair.
structure Addressed (s : Node) (task : PairTask) (pair : Nat) (v : Int) : Prop where
  address : s.addressOf task pair = some v
  inside : ∃ unit, s.unitFor task.subroutine = some unit ∧ 0 ≤ v ∧ v < unit.length
  fits : ∀ a ∈ task.qubits, s.hardware = true → fits a = true

instance Roomy.decidable (s : Node) (task : PairTask) (pair : Nat) :
    Decidable (Roomy s task pair) :=
  decidable_of_iff' _ (roomy_iff s task pair)

instance Addressed.decidable (s : Node) (task : PairTask) (pair : Nat) :
    Decidable (∃ v, Addressed s task pair v) :=
  decidable_of_iff (∃ v ∈ s.addressOf task pair,
      (∃ unit ∈ s.unitFor task.subroutine, 0 ≤ v ∧ v < unit.length) ∧
        ∀ a ∈ task.qubits, s.hardware = true → Block.fits a = true)
    (by
      constructor
      · rintro ⟨v, hAddress, hInside, hFits⟩
        exact ⟨v, hAddress, hInside, hFits⟩
      · rintro ⟨v, hAddressed⟩
        exact ⟨v, hAddressed.address, hAddressed.inside, hAddressed.fits⟩)

theorem effect_virtualOf (hAddressed : Addressed s task pair v)
    (hApp : s.appFor task.subroutine = some app) :
    effect (virtualOf app task pair) s = (.ok v, s) := by
  rcases bind_eq_some_iff.mp hAddressed.address with ⟨address, hQubits, hRest⟩
  rcases bind_eq_some_iff.mp hRest with ⟨n, hBlock, hEntry⟩
  rcases blockOf_eq_some hBlock with ⟨app', arrays, hApp', hArrays, hNumber⟩
  have hSame : app' = app := some.inj (hApp'.symm.trans hApp)
  subst hSame
  have hPlace := join_eq_some_iff.mp hEntry
  have hBound : pair < (s.heap.get n).length := (List.getElem?_eq_some_iff.mp hPlace).1
  have hRead : (s.heap.get n).readAt pair = some (some v) := by
    unfold readAt place?
    rw [if_pos (by omega), if_pos (by omega)]
    simpa using hPlace
  have hWidth := checkWidth_ok (hAddressed.fits address hQubits)
  have hReadAt : Arrays.readAt s.hardware s.heap arrays address pair = .ok (some v) := by
    simp only [Arrays.readAt, hWidth, hNumber, hRead]
    rfl
  simp [virtualOf, hQubits, readEntry, evalIndex, readPlace, arraysOf, effect_bind, hArrays,
    hReadAt]

theorem effect_hasVirtual (hApp : s.appFor sub = some app) (v : Int) :
    effect (hasVirtual app v) s = (.ok (s.inUse sub v), s) := by
  simp only [hasVirtual, effect_bind, effect_get, inUse, unitFor, hApp, bind_some]
  cases hUnit : get? app s.units with
  | none => rfl
  | some unit =>
    by_cases hNegative : v < 0
    · simp [hNegative, show ¬ 0 ≤ v by omega]
    · by_cases hOutside : (unit.length : Int) ≤ v
      · have hNone : unit[v.toNat]? = none := getElem?_eq_none (by omega)
        simp [hNone]
      · simp [hNegative, hOutside, show 0 ≤ v by omega]

-- A qubit is not accepted for an address in use.
theorem effect_allocate (hApp : s.appFor sub = some app)
    (hUnit : get? app s.units = some unit) (hLow : 0 ≤ v) (hHigh : v < unit.length)
    (hEmpty : (unit[v.toNat]?).join = none) (qubit : Int) :
    effect (allocate sub v (some qubit)) s =
      (.ok qubit, { s with units := put app (unit.set v.toNat (some qubit)) s.units }) := by
  have hPlace : place? unit.length v = some v.toNat := by
    unfold place?
    rw [if_pos hLow, if_pos hHigh]
  have hInside : ¬ (unit.length : Int) ≤ v := by omega
  simp only [allocate, effect_bind, effect_appFor hApp, unitOf, effect_get, hUnit, effect_pure,
    hInside, if_false, unitPlace, hPlace, hEmpty, setUnit, effect_modify]

-- A qubit is accepted for an address that is not in use.
theorem effect_accept_free (hTag : k.tag = .okKeep) (hAddressed : Addressed s task pair v)
    (hFree : s.inUse task.subroutine v = false) :
    ∃ units used, (∀ app, (get? app units).map List.length = (get? app s.units).map List.length) ∧
      effect (accept task pair (.keep k)) s =
        (.ok true, { s with units := units, used := used }) := by
  rcases hAddressed.inside with ⟨unit, hUnit, hLow, hHigh⟩
  rcases bind_eq_some_iff.mp hUnit with ⟨app, hApp, hUnits⟩
  have hEmpty : (unit[v.toNat]?).join = none := by
    simp only [inUse, hUnit, hLow] at hFree
    simpa using hFree
  let s' : Node := { s with used := if s.used.contains k.logicalQubit.number then s.used
        else s.used ++ [k.logicalQubit.number] }
  have hApp' : s'.appFor task.subroutine = some app := hApp
  have hUnits' : get? app s'.units = some unit := hUnits
  refine ⟨_, s'.used, sizes_put hUnits v.toNat (some k.logicalQubit.number), ?_⟩
  simp only [accept, tag, hTag, acceptKeep, effect_bind, effect_appFor hApp,
    effect_virtualOf hAddressed hApp, effect_hasVirtual hApp, hFree, Bool.false_eq_true, if_false,
    effect_use, effect_allocate hApp' hUnits' hLow hHigh hEmpty, effect_pure, s']

theorem effect_storeResult (hRoomy : Roomy s task pair) (hGranted : r.Granted)
    (hFits : r.Fits s.hardware) :
    ∃ n, s.blockOf task.subroutine task.results = some n ∧
      effect (storeResult task pair r) s = (.ok ⟨⟩, { s with
        heap := s.heap.set n ((s.heap.get n).replaced (resultFields * pair) r.values) }) := by
  rcases hRoomy.room with ⟨n, hBlock, hRoom⟩
  rcases blockOf_eq_some hBlock with ⟨app, arrays, hApp, hArrays, hNumber⟩
  have hLength := hGranted.length_values
  have hRow : checkRow s.hardware r.values = .ok () :=
    checkRow_ok hFits fun _ => by rw [hLength]; rfl
  have hStart : fits (resultFields * pair + resultFields : Nat) = true →
      fits (resultFields * pair : Nat) = true := by
    unfold fits resultFields
    simp only [Bool.and_eq_true, decide_eq_true_eq]
    omega
  have hWidth := checkWidth_ok fun hHardware => (hRoomy.fits hHardware).1
  have hLow := checkWidth_ok fun hHardware => hStart (hRoomy.fits hHardware).2
  have hHigh : checkWidth s.hardware (resultFields * pair + r.values.length : Nat) = .ok () := by
    rw [hLength]
    exact checkWidth_ok fun hHardware => (hRoomy.fits hHardware).2
  have hWrite : Arrays.writeSlice s.hardware s.heap arrays task.results
      (.between (resultFields * pair : Nat) (resultFields * pair + r.values.length : Nat))
      r.values = .ok (s.heap.set n ((s.heap.get n).replaced (resultFields * pair) r.values)) := by
    have hInside : resultFields * pair + r.values.length ≤ (s.heap.get n).length := by
      rw [hLength]
      exact hRoom
    simp only [Arrays.writeSlice, hWidth, hRow, between, checkBound, hLow, hHigh,
      Arrays.block, hNumber]
    have hReplaced := writeSlice_between hInside
    unfold between at hReplaced
    simp only [bind, Except.bind, hReplaced]
    rfl
  refine ⟨n, hBlock, ?_⟩
  have hHas : has app s.arrays = true := by
    rw [has, hArrays]
    rfl
  simp only [storeResult, effect_bind, effect_appFor hApp, effect_get, hHas, Bool.not_true,
    Bool.false_eq_true, if_false, writeSlice, arraysOf, hArrays, effect_pure, effect_lift,
    hGranted.rowSlice_eq, hWrite, effect_set]

end Parts

-- A response is stored for the first pair that is expected from its partner, and it is no longer
-- pending.
structure Stores (place : Nat) (p : Partner) (r : Response) (s t : Node) : Prop where
  apps : SameApps s t
  pending_eq : t.pending = s.pending.eraseIdx place
  queue_eq : t.queue p = counted (s.queue p)
  others : ∀ q, q ≠ p → t.queue q = s.queue q
  heap_eq : ∀ task ∈ (s.queue p).head?, ∀ pair : Nat, task.total - task.left = pair →
      ∃ n, s.blockOf task.subroutine task.results = some n ∧
        t.heap = s.heap.set n ((s.heap.get n).replaced (resultFields * pair) r.values)

section One
variable {s : Node} {p : Partner} {place : Nat}

theorem handleOne_waits (hTag : r.tag ≠ .err) (hPartner : partner? s.id r = some p)
    (hQueue : s.queue p = []) : effect (handleOne place r) s = (.ok false, s) := by
  rcases map_eq_some_iff.mp hPartner with ⟨⟨purpose, remote, direction⟩, hRoute, rfl⟩
  have hTasks : s.tasksOf (decide ((if direction = 1 then remote else s.id) = s.id))
      (remote, purpose) = [] := hQueue
  simp only [handleOne, hTag, if_false, effect_bind, effect_get, creator,
    hRoute, effect_lift, hTasks, effect_pure]

theorem handleOne_cons (hTag : r.tag ≠ .err) (hPartner : partner? s.id r = some p)
    (hQueue : s.queue p = task :: rest) :
    effect (handleOne place r) s = effect (do
      if !(← accept task (task.total - task.left) r) then return false
      countPair p.isCreator p.key
      storeResult task (task.total - task.left) r
      modify fun s => { s with pending := s.pending.eraseIdx place }
      return true) s := by
  rcases map_eq_some_iff.mp hPartner with ⟨⟨purpose, remote, direction⟩, hRoute, rfl⟩
  have hTasks : s.tasksOf (decide ((if direction = 1 then remote else s.id) = s.id))
      (remote, purpose) = task :: rest := hQueue
  simp only [handleOne, hTag, if_false, effect_bind, effect_get, creator,
    hRoute, effect_lift, hTasks]

theorem handleOne_stores (hGranted : r.Granted) (hFits : r.Fits s.hardware)
    (hPartner : partner? s.id r = some p) (hQueue : s.queue p = task :: rest)
    (hPair : task.total - task.left = pair) (hRoomy : Roomy s task pair)
    (hFree : r.isKeep = true → ∃ v, Addressed s task pair v ∧ s.inUse task.subroutine v = false) :
    ∃ t, effect (handleOne place r) s = (.ok true, t) ∧ Stores place p r s t := by
  have hAccept : ∃ units used,
      (∀ app, (get? app units).map List.length = (get? app s.units).map List.length) ∧
      effect (accept task pair r) s = (.ok true, { s with units := units, used := used }) := by
    cases hGranted with
    | measure hTag =>
      refine ⟨s.units, s.used, fun _ => rfl, ?_⟩
      simp only [accept, tag, hTag]
      rfl
    | keep hTag =>
      rcases hFree rfl with ⟨v, hAddressed, hUnused⟩
      exact effect_accept_free hTag hAddressed hUnused
  rcases hAccept with ⟨units, used, hSizes, hAccept⟩
  let s₁ : Node := { s with units := units, used := used }
  have hQueue₁ : s₁.queue p = task :: rest := hQueue
  let s₂ : Node := s₁.withQueue p (counted (task :: rest))
  have hApps₁ : SameApps s s₁ := ⟨rfl, rfl, rfl, rfl, hSizes⟩
  have hApps : SameApps s s₂ := hApps₁.trans withQueue_sameApps
  have hHeap : s₂.heap = s.heap := withQueue_heap
  have hRoomy₂ : Roomy s₂ task pair := by
    rcases hRoomy with ⟨⟨n, hBlock, hRoom⟩, hFits⟩
    refine ⟨⟨n, (hApps.blockOf_eq _ _).trans hBlock, ?_⟩, fun hHardware => hFits ?_⟩
    · rw [hHeap]
      exact hRoom
    · rw [← hApps.hardware_eq]
      exact hHardware
  have hFits₂ : r.Fits s₂.hardware := by
    rw [hApps.hardware_eq]
    exact hFits
  rcases effect_storeResult hRoomy₂ hGranted hFits₂ with ⟨n, hBlock, hStore⟩
  rw [hApps.blockOf_eq] at hBlock
  refine ⟨{ s₂ with
    heap := s₂.heap.set n ((s₂.heap.get n).replaced (resultFields * pair) r.values)
    pending := s₂.pending.eraseIdx place }, ?_, ?_⟩
  · rw [handleOne_cons hGranted.tag_ne_err hPartner hQueue, hPair]
    have hCount : effect (countPair p.isCreator p.key) { s with units := units, used := used } =
          (.ok ⟨⟩, s₂) :=
      effect_countPair hQueue₁
    simp only [effect_bind, hAccept, Bool.not_true, Bool.false_eq_true, if_false, hCount, hStore,
      effect_modify, effect_pure]
  · constructor
    · exact hApps.trans ⟨rfl, rfl, rfl, rfl, fun _ => rfl⟩
    · exact congrArg (List.eraseIdx · place) (withQueue_pending (s := s₁))
    · rw [hQueue]
      exact queue_withQueue_self (s := s₁)
    · exact fun q hOther => queue_withQueue_of_ne (s := s₁) hOther
    · intro _ hTask' pair' _
      rw [hQueue] at hTask'
      cases hTask'
      have hSame : pair = pair' := by omega
      subst hSame
      refine ⟨n, hBlock, ?_⟩
      rw [hHeap]

end One

end Node

end QuantumNode
