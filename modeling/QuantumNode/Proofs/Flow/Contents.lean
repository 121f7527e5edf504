import Mathlib.Data.List.Induction
import QuantumNode.Proofs.Draft.Counting
import QuantumNode.Proofs.Node.Apart

/-
  What arrays start with.  An array that starts with one value
  everywhere is made in front of the arrays before it and filled
  by a loop behind them, so while arrays are made, their blocks
  are kept track of by address.  In the end each array holds the
  entries that it was asked for, and the pending commands follow.

  Main declarations:
    * Node.Holds, arrays of an application with given entries
    * Flow.Ensures, readings that come to their end
    * arrays_start_as_asked
-/

open List

namespace QuantumNode

open Table Node Draft Function Machine Assembly

---- Blocks by address

namespace HostArray

-- The entries that an array starts with.
def block (a : HostArray) : Block :=
  a.init.elim (Block.fresh a.length) fun values => values.map fun x => x.bind Operand.number?

-- An array of numbers and undefined entries that is as long as it says.
structure Sound (a : HostArray) : Prop where
  numbers : a.StartsWithNumbers
  length_eq : a.length = a.block.length

end HostArray

namespace Node

-- The entries of an array of an application.
def contents (n : Node) (app address : Int) : Option Block :=
  (owned n app address).map n.heap.get

-- A node on which arrays of an application have given entries; numbers may be of any width.
structure Holds (sub : Nat) (app : Int) (held : Int → Option Block) (n : Node) : Prop where
  hosts : n.Hosts sub app
  wide : n.hardware = false
  apart : n.Apart
  table : (get? app n.arrays).isSome
  contents_eq : ∀ {address b}, held address = some b → n.contents app address = some b

namespace Holds

variable {sub : Nat} {app address size v : Int} {held : Int → Option Block} {n : Node}
  {b done : Block} {i m : Nat} {x : Operand} {index : Index} {line : Option HostLine}
  (hHolds : Holds sub app held n)

include hHolds

-- A new array gets a new block, even if there was one at its address.
theorem createArray (address size : Int) :
    ∃ t, effect (Node.createArray app address size) n = (.ok ⟨⟩, t) ∧
      Holds sub app (update held address (some (Block.fresh size))) t := by
  rcases Option.isSome_iff_exists.mp hHolds.table with ⟨arrays, hArrays⟩
  let t : Node := { n with
    heap := (n.heap.alloc (Block.fresh size)).1
    arrays := put app (put address (n.heap.alloc (Block.fresh size)).2 arrays) n.arrays }
  refine ⟨t, ?_, ⟨hHolds.hosts.subroutine, hHolds.hosts.registers, hHolds.hosts.off⟩, hHolds.wide,
    hHolds.apart.create hArrays, ?_, ?_⟩
  · have hCreate : Arrays.create n.hardware n.heap arrays address size = .ok
        ((n.heap.alloc (Block.fresh size)).1, put address (n.heap.alloc (Block.fresh size)).2 arrays) := by
      rw [hHolds.wide]
      rfl
    simp only [Node.createArray, arraysOf, effect_bind, effect_get, hArrays, effect_pure, effect_lift,
      hCreate]
    rfl
  · rw [get?_put_self]
    rfl
  · intro x b hHeld
    by_cases hSame : x = address
    · subst hSame
      rw [update_self] at hHeld
      cases hHeld
      rw [contents, owned_put_self rfl]
      exact congrArg some (Heap.get_alloc_self _ _)
    · rw [update_of_ne hSame] at hHeld
      rcases Option.map_eq_some_iff.mp (hHolds.contents_eq hHeld) with ⟨k, hOwned, rfl⟩
      rw [contents, owned_put_of_ne hArrays rfl fun hPlace => hSame (Prod.ext_iff.mp hPlace).2,
        hOwned]
      exact congrArg some (Heap.get_alloc (hHolds.apart.ownedInside hOwned) _)

-- Only the array at the address changes.
theorem writePlace (hHeld : held address = some b) (hInside : i < b.length) (v : Int) :
    ∃ t, effect (Node.writePlace app address i (some v)) n = (.ok ⟨⟩, t) ∧
      Holds sub app (update held address (some (b.set i (some v)))) t := by
  rcases Option.isSome_iff_exists.mp hHolds.table with ⟨arrays, hArrays⟩
  rcases Option.map_eq_some_iff.mp (hHolds.contents_eq hHeld) with ⟨k, hOwned, rfl⟩
  have hPointer : get? address arrays = some k := by rwa [owned, hArrays] at hOwned
  have hFound : place? (n.heap.get k).length i = some i := by simp [place?, hInside]
  have hWrite : Arrays.writeAt n.hardware n.heap arrays address i (some v) =
      .ok (n.heap.set k ((n.heap.get k).set i (some v))) := by
    simp [Arrays.writeAt, Arrays.block, Block.writeAt, Block.checkWidth, bind, Except.bind, hPointer,
      hFound, hHolds.wide]
    rfl
  refine ⟨{ n with heap := n.heap.set k ((n.heap.get k).set i (some v)) }, ?_,
    ⟨hHolds.hosts.subroutine, hHolds.hosts.registers, hHolds.hosts.off⟩, hHolds.wide,
    hHolds.apart.congr rfl (Heap.size_set _ _ _) rfl rfl rfl, hHolds.table, ?_⟩
  · simp only [Node.writePlace, arraysOf, effect_bind, effect_get, hArrays, effect_pure, effect_lift,
      hWrite]
    rfl
  · intro x c hc
    by_cases hSame : x = address
    · subst hSame
      rw [update_self] at hc
      cases hc
      refine (congrArg (Option.map _) hOwned).trans (congrArg some ?_)
      simp [Heap.get, Heap.set, hHolds.apart.ownedInside hOwned]
    · rw [update_of_ne hSame] at hc
      rcases Option.map_eq_some_iff.mp (hHolds.contents_eq hc) with ⟨m, hThere, rfl⟩
      have hApart : k ≠ m := by
        rintro rfl
        exact hSame (hHolds.apart.once hThere hOwned).2
      refine (congrArg (Option.map _) hThere).trans (congrArg some ?_)
      simp [Heap.get, Heap.set, Array.getElem?_setIfInBounds_ne hApart]

theorem obey_maker : ∃ t,
    effect (Flow.obey sub (.plain .array [.int size, .addr address] line)) n = (.ok ⟨⟩, t) ∧
      Holds sub app (update held address (some (Block.fresh size))) t := by
  rcases hHolds.createArray address size with ⟨t, hCreate, hLater⟩
  refine ⟨t, ?_, hLater⟩
  rw [Flow.obey, effect_bind, checkAll_wide hHolds.wide]
  simp only [Command.plain, Command.inputs, carryOut, returned?, performWith, map_nil, nil_append,
    effect_bind, effect_appOf hHolds.hosts.subroutine, demandValue, ofOperand, Operand.number?,
    effect_pure, hCreate]

-- Store a value at the first place that is not defined yet.
theorem obey_store (hHeld : held address = some (done ++ replicate (m + 1) none))
    (hNumber : x.number? = some v)
    (hIndex : effect (evalIndex app index) n = (.ok (done.length : Int), n)) :
    ∃ t, effect (Flow.obey sub (.plain .store [x, .entry address index] line)) n = (.ok ⟨⟩, t) ∧
      Holds sub app (update held address (some (done ++ some v :: replicate m none))) t := by
  rcases hHolds.writePlace hHeld (i := done.length) (by simp) v with ⟨t, hWrite, hLater⟩
  have hOperand : effect (ofOperand app x) n = (.ok (some v), n) := by
    cases x with
    | imm u | int u | shown u words =>
      cases hNumber
      rfl
    | _ => cases hNumber
  refine ⟨t, ?_, by simpa [replicate_succ] using hLater⟩
  rw [Flow.obey, effect_bind, checkAll_wide hHolds.wide]
  simp only [Command.plain, Command.inputs, carryOut, returned?, performWith, map_nil, nil_append,
    effect_bind, effect_appOf hHolds.hosts.subroutine, hOperand, writeEntry, hIndex, hWrite,
    effect_pure]

end Holds

end Node

---- Readings that end well

namespace Flow

variable {P Q R : Node → Prop} {sub : Nat} {scope : List Reg} {f g : Flow}

-- From states of one kind, a reading comes to its end in states of another kind.
def Ensures (P : Node → Prop) (x : Node → Reading) (Q : Node → Prop) : Prop :=
  ∀ n, P n → (x n).result = .ok () ∧ Q (x n).state

namespace Ensures

variable {x y : Node → Reading}

protected theorem still : Ensures P .still P :=
  fun _ hn => ⟨rfl, hn⟩

theorem andThen (hFirst : Ensures P x Q) (hThen : Ensures Q y R) :
    Ensures P (fun n => (x n).andThen y) R := by
  intro n hn
  rcases hFirst n hn with ⟨hOk, hMiddle⟩
  simpa only [Reading.andThen, hOk] using hThen _ hMiddle

theorem after {α : Type} {x : NodeM α} {next : α → Node → Reading}
    (hFirst : ∀ n, P n → ∃ a t, effect x n = (.ok a, t) ∧ Q t)
    (hThen : ∀ a, Ensures Q (next a) R) : Ensures P (Reading.after x next) R := by
  intro n hn
  rcases hFirst n hn with ⟨a, t, hEffect, ht⟩
  simpa only [Reading.after, hEffect] using hThen a t ht

theorem rounds {P : Nat → Node → Prop} {round : Nat → Node → Reading} {m k n : Nat}
    (hRound : ∀ k < m, Ensures (P k) (round k) (P (k + 1))) (hLast : k + n = m) :
    Ensures (P k) (Reading.rounds round n k) (P m) := by
  induction n generalizing k with
  | zero =>
    cases hLast
    exact .still
  | succ n ih => exact (hRound k (by omega)).andThen (ih (by omega))

theorem command {c : Command} {rest : List Command}
    (hObey : ∀ n, P n → ∃ t, effect (obey sub c) n = (.ok ⟨⟩, t) ∧ Q t)
    (hThen : Ensures Q (readCommands sub scope rest) R) :
    Ensures P (readCommands sub scope (c :: rest)) R := by
  refine andThen (x := Reading.single (obey sub c) c scope) (fun n hn => ?_) hThen
  rcases hObey n hn with ⟨t, hEffect, ht⟩
  simpa only [Reading.single, hEffect, true_and] using ht

end Ensures

theorem andThen_assoc (x : Reading) (y z : Node → Reading) :
    (x.andThen y).andThen z = x.andThen fun s => (y s).andThen z := by
  rcases x with ⟨visits, _ | _, s⟩
  · rfl
  · simp only [Reading.andThen]
    cases hMiddle : (y s).result <;> simp [hMiddle]

theorem read_append (f g : Flow) (scope : List Reg) (s : Node) :
    (f.append g).read sub scope s =
      (f.read sub scope s).andThen (g.read sub (f.taken ++ scope)) := by
  induction f generalizing scope s with
  | done => simp [append, read, Reading.andThen, Reading.still, taken]
  | act x commands kept rest ih | when asBlock test body rest _ ih | loop rounds r body rest _ ih =>
    simp only [append, read, andThen_assoc, taken, append_assoc, funext (ih _)]

theorem ensures_append (hFirst : ∀ scope, Ensures P (f.read sub scope) Q)
    (hThen : ∀ scope, Ensures Q (g.read sub scope) R) (scope : List Reg) :
    Ensures P ((f.append g).read sub scope) R := by
  rw [funext (read_append f g scope)]
  exact (hFirst scope).andThen (hThen _)

---- Making arrays

open Session

variable {app : Int} {held : Int → Option Block} {a : HostArray} {arrays : List HostArray} {r : Reg}
  {v : Int} {values : List (Option Operand)} {x : Operand}

theorem ensures_adding {items : List Item}
    (hCommands : ∀ scope, Ensures P (readCommands sub scope (items.filterMap Item.command?)) Q)
    (scope : List Reg) : Ensures P ((adding items).read sub scope) Q :=
  (hCommands scope).andThen .still

theorem ensures_maker (hSound : a.Sound) {rest : List Command}
    (hThen : Ensures (Holds sub app (update held a.address (some (replicate a.block.length none))))
      (readCommands sub scope rest) R) :
    Ensures (Holds sub app held) (readCommands sub scope ((maker a).command?.toList ++ rest)) R := by
  refine .command (fun n hHolds => hHolds.obey_maker) ?_
  rwa [hSound.length_eq]

-- One store for each value. The induction is on the values that are left, behind entries that the
-- array has already.
theorem ensures_storeEach (done : Block) (hNumbers : ∀ x, some x ∈ values → x.number?.isSome) :
    Ensures (Holds sub app (update held a.address (some (done ++ replicate values.length none))))
      (readCommands sub scope ((storeEach a done.length values).filterMap Item.command?))
      (Holds sub app (update held a.address
        (some (done ++ values.map fun x => x.bind Operand.number?)))) := by
  induction values generalizing done with
  | nil => exact .still
  | cons value rest ih =>
    have hRest := fun entry => ih (done ++ [entry]) fun x hx => hNumbers x (mem_cons_of_mem _ hx)
    simp only [length_append, length_singleton, append_assoc, singleton_append] at hRest
    cases value with
    | none => exact hRest none
    | some x =>
      rcases Option.isSome_iff_exists.mp (hNumbers x mem_cons_self) with ⟨v, hNumber⟩
      refine .command (fun n hHolds => ?_) (by simpa [hNumber] using hRest (some v))
      have hIndex : effect (evalIndex app (.int done.length)) n = (.ok done.length, n) := rfl
      rcases hHolds.obey_store (update_self ..) hNumber hIndex with ⟨t, hObey, hLater⟩
      rw [update_idem] at hLater
      exact ⟨t, hObey, hLater⟩

-- A loop that stores one value everywhere. In front of a round the places before the index are
-- defined.
theorem ensures_fill {m : Nat} (hNumber : x.number? = some v)
    (hRegister : Registers.checkPlace r = .ok ()) (scope : List Reg) :
    Ensures (Holds sub app (update held a.address (some (replicate m none))))
      ((loop (.called 0 m 1) r (adding [filler a x r]) done).read sub scope)
      (Holds sub app (update held a.address (some (replicate m (some v))))) := by
  let filled (k : Nat) : Int → Option Block :=
    update held a.address (some (replicate k (some v) ++ replicate (m - k) none))
  let inRound (k : Nat) (n : Node) : Prop :=
    Holds sub app (filled k) n ∧ n.registerOf app r = some (k : Int)
  have hIndex : ∀ k i : Nat, ∀ n, Holds sub app (filled i) n →
      ∃ u t, effect (setIndex sub r k >>= fun _ => checkAll [(m : Int)]) n = (.ok u, t) ∧
        Holds sub app (filled i) t ∧ t.registerOf app r = some (k : Int) := by
    intro k i n hHolds
    rcases effect_setWide hRegister hHolds.hosts hHolds.wide k with ⟨t, hSet, hCounts⟩
    rcases setReg_ok hSet with ⟨_, _, rfl⟩
    refine ⟨(), _, ?_, ⟨hCounts.hosts, hCounts.wide, hHolds.apart.congr rfl rfl rfl rfl rfl,
      hHolds.table, hHolds.contents_eq⟩, hCounts.value⟩
    simp only [setIndex, effect_bind, effect_appOf hHolds.hosts.subroutine, hSet,
      checkAll_wide hCounts.wide]
  have hRound : ∀ k < m, Ensures (inRound k) (fun s =>
      ((adding [filler a x r]).read sub (r :: scope) s).andThen
        (.after (advance sub r (.called 0 m 1) k) fun _ => .still)) (inRound (k + 1)) := by
    intro k hLess
    refine .andThen (Q := Holds sub app (filled (k + 1)))
      (ensures_adding (fun scope => .command ?_ .still) _)
      (.after (Q := inRound (k + 1)) ?_ fun _ => .still)
    · rintro n ⟨hHolds, hNow⟩
      have hLeft : m - k = m - (k + 1) + 1 := by omega
      have hHere : filled k a.address =
          some (replicate k (some v) ++ replicate (m - (k + 1) + 1) none) := by
        rw [← hLeft]
        exact update_self ..
      have hRead : effect (evalIndex app (.reg r)) n =
          (.ok ((replicate k (some v)).length : Int), n) := by
        simp [evalIndex, effect_bind, effect_index hRegister hHolds.hosts hNow]
      rcases hHolds.obey_store hHere hNumber hRead with ⟨t, hObey, hLater⟩
      refine ⟨t, hObey, ?_⟩
      simpa [filled, replicate_succ'] using hLater
    · intro n hHolds
      have hNext : (Rounds.called 0 m 1).index (k + 1) = ((k + 1 : Nat) : Int) := by
        simp [Rounds.index, Rounds.start, Rounds.step]
      rw [advance, effect_bind, checkAll_wide hHolds.wide, hNext]
      exact hIndex (k + 1) (k + 1) n hHolds
  have hCount : (Rounds.called 0 m 1).count = m := by
    simp [Rounds.count, Rounds.start, Rounds.stop, Rounds.step]
  refine .andThen (x := Reading.after (enter sub r (.called 0 m 1)) _) (.after (Q := inRound 0) ?_
    fun _ => ?_) .still
  · exact fun n hHolds => hIndex 0 0 n (by simpa [filled] using hHolds)
  · have hAll := Ensures.rounds hRound (k := 0) (Nat.zero_add m)
    rw [hCount]
    intro n hn
    rcases hAll n hn with ⟨hOk, hHolds, _⟩
    exact ⟨hOk, by simpa [filled] using hHolds⟩

theorem map_of_uniform? (hUniform : uniform? values = some x) (hNumber : x.number? = some v) :
    values.map (fun x => x.bind Operand.number?) = replicate values.length (some v) := by
  unfold uniform? at hUniform
  split at hUniform
  · split at hUniform
    · rename_i hAll
      cases hUniform
      refine eq_replicate_iff.mpr ⟨length_map _, forall_mem_map.mpr (forall_mem_cons.mpr ⟨hNumber, ?_⟩)⟩
      simpa [hNumber] using hAll
    · cases hUniform
  · cases hUniform

-- Arrays with the entries that they start with, among others.
def overlaid (arrays : List HostArray) (held : Int → Option Block) : Int → Option Block :=
  arrays.foldl (fun held a => update held a.address (some a.block)) held

theorem overlaid_update (hNew : a.address ∉ arrays.map HostArray.address) (b : Option Block) :
    overlaid arrays (update held a.address b) = update (overlaid arrays held) a.address b := by
  induction arrays generalizing held with
  | nil => rfl
  | cons first rest ih =>
    rw [map_cons, mem_cons, not_or] at hNew
    rw [overlaid, foldl_cons, update_comm hNew.1]
    exact ih hNew.2

theorem overlaid_mem (hNodup : (arrays.map HostArray.address).Nodup) (hMem : a ∈ arrays) :
    overlaid arrays held a.address = some a.block := by
  induction arrays generalizing held with
  | nil => cases hMem
  | cons first rest ih =>
    rw [map_cons, nodup_cons] at hNodup
    rcases mem_cons.mp hMem with rfl | hRest
    · rw [overlaid, foldl_cons]
      exact (congrFun (overlaid_update hNodup.1 _) _).trans (update_self ..)
    · exact ih hNodup.2 hRest

-- The loop of an array that starts with one value stands behind the arrays before it, and its block
-- is kept until then.
theorem ensures_making (hNew : a.address ∉ arrays.map HostArray.address) (hSound : a.Sound)
    (hRegister : Registers.checkPlace r = .ok ())
    (hArrays : ∀ held scope, Ensures (Holds sub app held) (f.read sub scope)
      (Holds sub app (overlaid arrays held))) (held : Int → Option Block) :
    ∀ scope, Ensures (Holds sub app held) ((making r f a).read sub scope)
      (Holds sub app (update (overlaid arrays held) a.address (some a.block))) := by
  rcases hInit : a.init with _ | values
  · have hBlock : a.block = replicate a.block.length none := by
      simp [HostArray.block, hInit, Block.fresh]
    simp only [making, hInit]
    rw [hBlock]
    exact ensures_append (hArrays held) (ensures_adding fun scope => ensures_maker hSound .still)
  · have hBlock : a.block = values.map fun x => x.bind Operand.number? := by
      simp [HostArray.block, hInit]
    have hLength : a.block.length = values.length := by rw [hBlock, length_map]
    have hNumbers := hSound.numbers values hInit
    simp only [making, hInit]
    cases hUniform : uniform? values with
    | none =>
      refine ensures_append (hArrays held) (ensures_adding fun scope => ensures_maker hSound ?_)
      rw [hLength, hBlock]
      exact ensures_storeEach [] hNumbers
    | some x =>
      rcases Option.isSome_iff_exists.mp (hNumbers x (mem_of_uniform? hUniform)) with ⟨v, hNumber⟩
      have hMade := hArrays (update held a.address (some (replicate a.block.length none)))
      rw [overlaid_update hNew] at hMade
      refine ensures_append (ensures_adding fun scope => ensures_maker hSound .still)
        (ensures_append hMade fun scope => ?_)
      rw [hLength, hBlock, map_of_uniform? hUniform hNumber]
      exact ensures_fill hNumber hRegister scope

-- All arrays, by induction on how many are made.
theorem ensures_makingAll (hRegister : Registers.checkPlace r = .ok ())
    (hSound : ∀ a ∈ arrays, a.Sound) (hNodup : (arrays.map HostArray.address).Nodup)
    (held : Int → Option Block) : ∀ scope, Ensures (Holds sub app held)
      ((arrays.foldl (making r) .done).read sub scope) (Holds sub app (overlaid arrays held)) := by
  induction arrays using List.reverseRecOn generalizing held with
  | nil => exact fun _ => .still
  | append_singleton arrays a ih =>
    rw [map_append, nodup_append] at hNodup
    rw [foldl_append, overlaid, foldl_append]
    refine ensures_making ?_ (hSound a (by simp)) hRegister
      (ih (fun b hb => hSound b (mem_append_left _ hb)) hNodup.1) held
    exact fun hOld => hNodup.2.2 _ hOld _ mem_cons_self rfl

theorem checkPlace_spare (s : Session) : Registers.checkPlace (spare s) = .ok () := by
  refine (standard ?_).2
  unfold spare
  split
  · rename_i hFree
    exact (inactive_ok hFree).1
  · decide

---- Requests for arrays

-- A new array, without entries or with given ones.
inductive ArrayRequest
  | empty (length : Int)
  | filled (values : Block)

namespace ArrayRequest

def make : ArrayRequest → SessionM HostArray
  | empty length => arrayOf length
  | filled values => arrayWith values

def block : ArrayRequest → Block
  | empty length => Block.fresh length
  | filled values => values

variable {s t : Session} {request : ArrayRequest} {requests : List ArrayRequest}

theorem newArray_ok {length : Int} {init : Option (List Value)}
    {values : Option (List (Option Operand))}
    (hEffect : effect (newArray (.int length) init) s = (.ok a, t))
    (hInit : ∀ u, effect (init.mapM initValues) u = (.ok values, u)) :
    0 < a.length ∧ a.length = values.elim length (fun xs => (xs.length : Int)) ∧ a.init = values ∧
      a.address = s.allocation.newAddress.1 ∧
      t.allocation = s.allocation.newAddress.2.returnArray a := by
  rw [newArray, effect_get_bind] at hEffect
  rcases of_binds_ok hEffect with ⟨_, _, ⟨⟩, line, _, hLine, hLater⟩
  cases currentLine_ok hLine
  rw [effect_bind, hInit] at hLater
  cases values with
  | none | some xs =>
    simp only at hLater
    split at hLater
    · rcases of_bind_ok hLater with ⟨_, _, _, ⟨⟩⟩
    · rename_i hPositive
      cases hLater
      exact ⟨Int.not_le.mp hPositive, rfl, rfl, rfl, rfl⟩

-- Numbers and nothing are taken over as they are.
theorem effect_initValues {f : Option Int → Value} (hSome : ∀ v, f (some v) = .int v)
    (hNone : f none = .none) (values : Block) (s : Session) :
    effect ((some (values.map f)).mapM initValues) s =
      (.ok (some (values.map (·.map .int))), s) := by
  have hEach : effect (initValues (values.map f)) s = (.ok (values.map (·.map .int)), s) := by
    induction values with
    | nil => rfl
    | cons v rest ih =>
      cases v with
      | none =>
        simp only [map_cons, initValues, hNone, initValue?, effect_bind, effect_pure, ih, Option.map]
      | some v =>
        simp only [map_cons, initValues, hSome, initValue?, Value.int?, operandOf, effect_bind,
          effect_pure, ih, Option.map, Option.isSome, if_true]
  change effect (some <$> initValues (values.map f)) s = _
  rw [map_eq_pure_bind, effect_bind, hEach]
  rfl

theorem make_ok (hEffect : effect request.make s = (.ok a, t)) :
    a.Sound ∧ a.block = request.block ∧ a.address = s.allocation.newAddress.1 ∧
      t.allocation = s.allocation.newAddress.2.returnArray a := by
  cases request with
  | empty length =>
    rcases newArray_ok hEffect fun _ => rfl with ⟨hPositive, hLength, hInit, hMade⟩
    refine ⟨⟨?_, ?_⟩, ?_, hMade⟩
    · simp [HostArray.StartsWithNumbers, hInit]
    · simp [HostArray.block, hInit, Block.fresh]
      omega
    · simpa [HostArray.block, hInit, block] using congrArg Block.fresh hLength
  | filled values =>
    rcases newArray_ok hEffect (effect_initValues (by exact fun _ => rfl) (by rfl) values) with
      ⟨_, hLength, hInit, hMade⟩
    have hNumber : ∀ x : Option Int, (x.map Operand.int).bind Operand.number? = x := by
      intro x
      cases x <;> rfl
    have hBlock : a.block = values := by simp [HostArray.block, hInit, comp_def, hNumber]
    refine ⟨⟨?_, ?_⟩, hBlock, hMade⟩
    · simp only [HostArray.StartsWithNumbers, hInit, Option.mem_def, Option.some.injEq, forall_eq']
      intro x hx
      rcases mem_map.mp hx with ⟨_ | v, _, ⟨⟩⟩
      rfl
    · rw [hBlock, hLength]
      simp

-- Arrays that are asked for one after the other are at different addresses.
theorem makeAll_ok (hEffect : effect (requests.mapM make) s = (.ok arrays, t)) :
    (∀ a ∈ arrays, a.Sound ∧ s.allocation.newAddress.1 ≤ a.address) ∧
      arrays.map HostArray.block = requests.map block ∧
      (arrays.map HostArray.address).Nodup ∧
      t.allocation.returnedArrays = s.allocation.returnedArrays ++ arrays := by
  induction requests generalizing s arrays with
  | nil =>
    cases hEffect
    simp
  | cons request rest ih =>
    rw [mapM_cons] at hEffect
    rcases of_binds_ok hEffect with ⟨a, u, hFirst, later, _, hRest, ⟨⟩⟩
    rcases make_ok hFirst with ⟨hSound, hBlock, hAddress, hMade⟩
    rcases ih hRest with ⟨hSounds, hBlocks, hNodup, hReturned⟩
    have hNext : u.allocation.newAddress.1 = a.address + 1 := by
      rw [hMade, hAddress]
      simp [Allocation.newAddress, Allocation.returnArray]
    rw [hNext] at hSounds
    refine ⟨forall_mem_cons.mpr ⟨⟨hSound, Int.le_of_eq hAddress.symm⟩, fun b hb => ?_⟩,
      congrArg₂ cons hBlock hBlocks, nodup_cons.mpr ⟨fun hOld => ?_, hNodup⟩, ?_⟩
    · have hBehind := (hSounds b hb).2
      exact ⟨(hSounds b hb).1, by omega⟩
    · rcases mem_map.mp hOld with ⟨b, hb, hSame⟩
      have hBehind := (hSounds b hb).2
      omega
    · rw [hReturned, hMade]
      simp [Allocation.newAddress, Allocation.returnArray]

end ArrayRequest

/-
  Arrays are asked for, and at some later time the draft is made.
  Its instructions come to the first pending command, and then
  each array has the entries that it was asked for.
-/
theorem arrays_start_as_asked
    {requests : List ArrayRequest}
    {arrays : List HostArray}
    {s t u v : Session}
    {d : Draft}
    {flavour : Flavour}
    {p : Subroutine}
    {sub : Nat}
    {app : Int}
    {n : Node}
    (hNone : s.allocation.returnedArrays = [])
    (hAsked : effect (requests.mapM ArrayRequest.make) s = (.ok arrays, t))
    (hKept : u.allocation.returnedArrays = t.allocation.returnedArrays)
    (hDraft : effect popDraft u = (.ok (some d), v))
    (hPlain : AllPlain d.items)
    (hAssemble : assemble .full flavour d = .ok p)
    (hHosts : n.Hosts sub app)
    (hWide : n.hardware = false)
    (hApart : n.Apart)
    (hTable : (get? app n.arrays).isSome) :
    ∃ front visits n',
      d.items.map Item.bare = front ++
        (u.pending ++ (returnedArrays u ++ returnedRegisters u)).map Item.bare ∧
      Path (Node.program sub p.instrs.toArray) 0 n visits (size front) n' ∧
      arrays.map (fun a => n'.contents app a.address) =
        requests.map (fun request => some request.block) := by
  rcases ArrayRequest.makeAll_ok hAsked with ⟨hSounds, hBlocks, hNodup, hReturned⟩
  rw [hReturned, hNone, nil_append] at hKept
  have hSound := fun a ha => (hSounds a ha).1
  rcases popDraft_drafted hDraft with ⟨made, hDrafted⟩
  rcases makeArrays_ok (s := withPending [] u) (nil_subset _) rfl hDrafted.made_ok with
    ⟨⟨m, hLaid, hFront⟩, _⟩
  have hItems : d.items.map Item.bare = unmarked m ++
      (u.pending ++ (returnedArrays u ++ returnedRegisters u)).map Item.bare := by
    rw [hFront]
    exact hDrafted.items_eq.trans map_append
  generalize hRest : (u.pending ++ (returnedArrays u ++ returnedRegisters u)).map Item.bare = rest
    at hItems ⊢
  have hWhole : unmarked (m ++ marked false rest) = d.items.map Item.bare := by
    rw [hItems, unmarked_append, unmarked_marked]
  have hCoded := coded_bare (coded_of_assemble hPlain hAssemble)
  have hSplit : m ++ marked false rest = [] ++ (m ++ marked false rest) := rfl
  have hGoes := hLaid.goes (hWhole ▸ fits_of_coded hCoded) (hWhole ▸ resolves_bare hAssemble)
    (scoped_makingAll [] fun a ha => (hSound a (hKept ▸ ha)).numbers).1
    (map_nil (f := Prod.fst (β := Int))) (by rintro p ⟨⟩) hSplit (hHosts.linked _ rfl)
  rw [hWhole, unmarked_marked] at hGoes
  have hStart : Holds sub app (fun _ => none) n :=
    ⟨hHosts, hWide, hApart, hTable, by rintro _ _ ⟨⟩⟩
  rcases ensures_makingAll (checkPlace_spare (withPending [] u)) hSound hNodup _ [] n hStart with
    ⟨hOk, hHolds⟩
  rcases hGoes _ rfl with ⟨steps, _, hEnds⟩
  rw [hKept, hOk] at hEnds
  rcases hEnds with ⟨stop, t', hPath, hStop, hLinked⟩
  rcases path_of_draft hCoded (allPlain_bare.mpr hPlain) hPath (At.start hCoded)
    (hHosts.linked (Assembly.view _ []) rfl) with ⟨visits, k, n', hPath', hAt, hLinked', _⟩
  rw [← hAt.lineOf_eq, hStop.lineOf_eq, lineOf_eq hItems] at hPath'
  refine ⟨unmarked m, visits, n', hItems, hPath', ?_⟩
  have hSame : ∀ {V x y}, Linked sub app V x y → ∀ address,
      y.contents app address = x.contents app address := by
    intro V x y hLinked address
    rw [hLinked.visible]
    rfl
  have hAll := congrArg (map some) hBlocks
  rw [map_map, map_map] at hAll
  refine (map_congr_left fun a ha => ?_).trans hAll
  rw [hSame hLinked', hSame hLinked]
  exact hHolds.contents_eq (overlaid_mem hNodup ha)

-- Arrays of one value, of several values and of none.
def assorted : List ArrayRequest :=
  [.filled [some 5, some 5], .empty 2, .filled [some 1, none, some 3], .filled [some 7]]

-- A session with a command that is not sent yet.
def writing : Session :=
  { startingSession none with
    pending := [command .set [.reg ⟨.c, 0⟩, .int 3]]
    allocation := .empty }

def askedFor : Session := (effect (assorted.mapM ArrayRequest.make) writing).2

-- All arrays are as they were asked for where the instructions come to the command.
theorem arrays_start_as_asked_assorted :
    ∃ d v p front visits n',
      effect popDraft askedFor = (.ok (some d), v) ∧ assemble .full .vanilla d = .ok p ∧
      d.items.map Item.bare = front ++ command .set [.reg ⟨.c, 0⟩, .int 3] ::
        (returnedArrays askedFor).map Item.bare ∧
      Path (Node.program 0 p.instrs.toArray) 0 openNode visits (size front) n' ∧
      [0, 1, 2, 3].map (n'.contents 0) = assorted.map fun request => some request.block := by
  have hArrays : ∃ arrays ∈ (effect (assorted.mapM ArrayRequest.make) writing).1.toOption,
      arrays.map HostArray.address = [0, 1, 2, 3] := by
    decide +kernel
  have hDrafts : ∃ d ∈ (effect popDraft askedFor).1.toOption.join, AllPlain d.items ∧
      (assemble .full .vanilla d).isOk := by
    decide +kernel
  have hPending : askedFor.pending = [command .set [.reg ⟨.c, 0⟩, .int 3]] ∧
      returnedRegisters askedFor = [] := by
    decide +kernel
  rcases hArrays with ⟨arrays, hArrays, hAddresses⟩
  rcases hDrafts with ⟨d, hDraft, hPlain, hAssembled⟩
  have hFound := effect_of_toOption (Option.join_eq_some_iff.mp hDraft)
  rcases Checked.of_isOk hAssembled with ⟨p, hAssemble⟩
  have hKept : askedFor.allocation.returnedArrays =
      (effect (assorted.mapM ArrayRequest.make) writing).2.allocation.returnedArrays := by
    rw [askedFor]
  have hHosts : openNode.Hosts 0 0 := ⟨rfl, rfl, rfl⟩
  have hApart : openNode.Apart :=
    ((Apart.fresh "node" 0 .vanilla false false).initApp 0 5).congr rfl rfl rfl rfl rfl
  rcases arrays_start_as_asked rfl (effect_of_toOption hArrays) hKept hFound hPlain hAssemble hHosts
    rfl hApart rfl with ⟨front, visits, n', hItems, hPath, hContents⟩
  rw [hPending.1, hPending.2, append_nil] at hItems
  refine ⟨d, _, p, front, visits, n', hFound, hAssemble, hItems, hPath, ?_⟩
  rw [← hAddresses, map_map]
  exact hContents

end Flow

end QuantumNode
