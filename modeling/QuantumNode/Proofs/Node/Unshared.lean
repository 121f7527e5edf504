import Mathlib.Data.List.Perm.Subperm
import QuantumNode.Proofs.Node.Linked

/-
  No physical qubit belongs to two virtual addresses, and every physical qubit that belongs to one
  is in use; and what responses do to qubits, and what instructions wait for.
-/

open List

namespace QuantumNode
open Table
variable {unit : Block} {app qubit : Int} {place : Nat} {s t : Node}
namespace Table
variable {κ α : Type} [DecidableEq κ] {key : κ}

def Distinct (t : Table κ α) : Prop := (t.map Prod.fst).Nodup

theorem mem_keys {t : Table κ α} : key ∈ t.map Prod.fst ↔ has key t = true := by
  unfold has
  fun_induction get? key t with
  | case1 | case2 => simp
  | case3 _ _ _ hKey ih => simp [Ne.symm hKey, ih]

theorem get?_eq_none {t : Table κ α} (hAbsent : key ∉ t.map Prod.fst) : get? key t = none := by
  simpa [mem_keys, has] using hAbsent

-- A known key keeps its place, a new one is the last.
theorem keys_put (key : κ) (value : α) (t : Table κ α) :
    (put key value t).map Prod.fst =
      if key ∈ t.map Prod.fst then t.map Prod.fst else t.map Prod.fst ++ [key] := by
  fun_induction put key value t with
  | case1 | case2 => simp
  | case3 _ _ _ hKey ih =>
    simp only [map_cons, ih, mem_cons, Ne.symm hKey, false_or]
    split <;> rfl

theorem keys_put_of_get? {old : α} {t : Table κ α} (hKnown : get? key t = some old)
    (value : α) : (put key value t).map Prod.fst = t.map Prod.fst := by
  rw [keys_put, if_pos (mem_keys.mpr (by rw [has, hKnown]; rfl))]

theorem keys_erase (key : κ) (t : Table κ α) :
    (erase key t).map Prod.fst = (t.map Prod.fst).erase key := by
  fun_induction erase key t with
  | case1 | case2 => simp
  | case3 _ _ _ hKey ih => simp [hKey, ih]

theorem erase_of_get? {t : Table κ α} (hAbsent : get? key t = none) : erase key t = t := by
  fun_induction get? key t with
  | case1 => rfl
  | case2 => cases hAbsent
  | case3 _ _ _ hKey ih => simp [erase, hKey, ih hAbsent]

theorem mem_keep : other ∈ (if key ∈ ks then ks else ks ++ [key]) ↔ other = key ∨ other ∈ ks := by
  split
  · rename_i hKnown
    exact ⟨.inr, fun hMember => hMember.elim (fun hSame => hSame ▸ hKnown) fun hOld => hOld⟩
  · rw [mem_append, mem_singleton, or_comm]

theorem nodup_keep (hNodup : ks.Nodup) (key : κ) :
    (if key ∈ ks then ks else ks ++ [key]).Nodup := by
  split
  · exact hNodup
  · exact nodup_append.mpr ⟨hNodup, nodup_cons.mpr ⟨by simp, nodup_nil⟩, by grind⟩

theorem Distinct.put {t : Table κ α} (hDistinct : Distinct t) (key : κ) (value : α) :
    Distinct (put key value t) := by
  rw [Distinct, keys_put]
  exact nodup_keep hDistinct key

theorem Distinct.erase {t : Table κ α} (hDistinct : Distinct t) (key : κ) :
    Distinct (erase key t) := by
  rw [Distinct, keys_erase]
  exact Nodup.erase key hDistinct

theorem Distinct.get?_erase_self {t : Table κ α} (hDistinct : Distinct t) (key : κ) :
    get? key (Table.erase key t) = none := by
  refine get?_eq_none ?_
  rw [keys_erase]
  exact Nodup.not_mem_erase hDistinct

end Table

namespace Node

---- Mapped qubits

-- A place of the unit module of an application holds a physical qubit.
def Mapped (units : Table Int Block) (app : Int) (place : Nat) (qubit : Int) : Prop :=
  ∃ unit, get? app units = some unit ∧ unit[place]? = some (some qubit)

-- No physical qubit is mapped twice, over the unit modules of all applications, and the mapped ones
-- are in use.
structure Unshared (s : Node) : Prop where
  distinct : Distinct s.units
  once : ∀ {app app' : Int} {place place' : Nat} {qubit : Int},
      Mapped s.units app place qubit → Mapped s.units app' place' qubit →
        app = app' ∧ place = place'
  inUse : ∀ {app : Int} {place : Nat} {qubit : Int}, Mapped s.units app place qubit → qubit ∈ s.used

theorem mapped_put {units : Table Int Block} {other : Int}
    (hMapped : Mapped (put app unit units) other place qubit) :
    (other = app ∧ unit[place]? = some (some qubit)) ∨
      (other ≠ app ∧ Mapped units other place qubit) := by
  rcases hMapped with ⟨found, hFound, hPlace⟩
  by_cases hSame : other = app
  · subst hSame
    rw [get?_put_self] at hFound
    cases hFound
    exact .inl ⟨rfl, hPlace⟩
  · rw [get?_put_of_ne hSame] at hFound
    exact .inr ⟨hSame, found, hFound, hPlace⟩

theorem mapped_set {units : Table Int Block} {other : Int} {at' : Nat} {entry : Option Int}
    (hUnit : get? app units = some unit)
    (hMapped : Mapped (put app (unit.set place entry) units) other at' qubit) :
    (other = app ∧ at' = place ∧ entry = some qubit) ∨
      ((other, at') ≠ (app, place) ∧ Mapped units other at' qubit) := by
  rcases mapped_put hMapped with ⟨rfl, hPlace⟩ | ⟨hOther, hOld⟩
  · by_cases hHere : at' = place
    · subst hHere
      rcases List.getElem?_eq_some_iff.mp hPlace with ⟨_, hEntry⟩
      rw [getElem_set_self] at hEntry
      exact .inl ⟨rfl, rfl, hEntry⟩
    · rw [getElem?_set_ne (Ne.symm hHere)] at hPlace
      exact .inr ⟨fun hSame => hHere (Prod.mk.inj hSame).2, unit, hUnit, hPlace⟩
  · exact .inr ⟨fun hSame => hOther (Prod.mk.inj hSame).1, hOld⟩

-- Some number up to the length of a list is not in it; there is a first such number.
theorem exists_first_unused (used : List Int) :
    ∃ n : Nat,
      (List.range (used.length + 1)).find? (fun n => !used.contains (Int.ofNat n)) = some n ∧
        (n : Int) ∉ used ∧ ∀ k < n, (k : Int) ∈ used := by
  cases hFound : (List.range (used.length + 1)).find? fun n => !used.contains (Int.ofNat n) with
  | some n =>
    refine ⟨n, rfl, by simpa using find?_some hFound, fun k hLess => ?_⟩
    rw [find?_range_eq_some] at hFound
    simpa using hFound.2.2 k hLess
  | none =>
    -- Otherwise the list would hold one number more than it has entries.
    have hAll : (List.range (used.length + 1)).map Int.ofNat ⊆ used := by
      intro q hMember
      rcases mem_map.mp hMember with ⟨n, hn, rfl⟩
      simpa using find?_eq_none.mp hFound n hn
    have hNodup : ((List.range (used.length + 1)).map Int.ofNat).Nodup :=
      List.Pairwise.map _ (fun _ _ hne hEq => hne (Int.ofNat.inj hEq)) nodup_range
    have hLength := (hNodup.subperm hAll).length_le
    rw [length_map, length_range] at hLength
    omega

theorem unusedQubit_not_mem (used : List Int) : unusedQubit used ∉ used := by
  rcases exists_first_unused used with ⟨n, hFound, hUnused, _⟩
  rw [unusedQubit, hFound]
  exact hUnused

theorem mem_use {used : List Int} :
    qubit ∈ (if used.contains qubit then used else used ++ [qubit]) := by
  split
  · rename_i hUsed
    simpa using hUsed
  · simp

theorem subset_use (qubit : Int) (used : List Int) :
    used ⊆ (if used.contains qubit then used else used ++ [qubit]) := by
  intro q hMember
  split
  · exact hMember
  · exact mem_append_left _ hMember

namespace Unshared

theorem fresh (name : String) (id : Int) (flavour : Flavour) (hardware hasStack : Bool) :
    Unshared (fresh name id flavour hardware hasStack) where
  distinct := nodup_nil
  once := by rintro _ _ _ _ _ ⟨_, ⟨⟩, _⟩
  inUse := by rintro _ _ _ ⟨_, ⟨⟩, _⟩

-- More qubits may be in use than are mapped.
theorem mono (hUnshared : Unshared s) (hUnits : t.units = s.units) (hUsed : s.used ⊆ t.used) :
    Unshared t where
  distinct := hUnits ▸ hUnshared.distinct
  once := by
    rw [hUnits]
    exact hUnshared.once
  inUse := by
    rw [hUnits]
    exact fun hMapped => hUsed (hUnshared.inUse hMapped)

theorem quiet {α : Type} {x : NodeM α} (hUnshared : Unshared s) (hQuiet : Quiet x) :
    Unshared (effect x s).2 :=
  hUnshared.mono (hQuiet.units s) (by rw [hQuiet.used s]; exact Subset.refl _)

theorem bind {α : Type} {x : NodeM α} {f : α → NodeM β} (hFirst : Unshared (effect x s).2)
    (hThen : ∀ a t, effect x s = (.ok a, t) → Unshared t → Unshared (effect (f a) t).2) :
    Unshared (effect (x >>= f) s).2 := by
  rw [effect_bind]
  rcases hEffect : effect x s with ⟨e | a, t⟩ <;> rw [hEffect] at hFirst
  · exact hFirst
  · exact hThen a t hEffect hFirst

-- A qubit that is not mapped may be given to a place.
theorem assign (hUnshared : Unshared s) (hUnit : get? app s.units = some unit)
    (hFree : ∀ app' place', ¬ Mapped s.units app' place' qubit)
    (hUnits : t.units = put app (unit.set place (some qubit)) s.units)
    (hUsed : s.used ⊆ t.used) (hIn : qubit ∈ t.used) : Unshared t where
  distinct := hUnits ▸ hUnshared.distinct.put _ _
  once := by
    rw [hUnits]
    intro _ _ _ _ q hOne hOther
    rcases mapped_set hUnit hOne with ⟨rfl, rfl, hq⟩ | ⟨_, hOld₁⟩
    · rcases mapped_set hUnit hOther with ⟨rfl, rfl, _⟩ | ⟨_, hOld₂⟩
      · exact ⟨rfl, rfl⟩
      · cases hq
        exact absurd hOld₂ (hFree _ _)
    · rcases mapped_set hUnit hOther with ⟨_, _, ⟨⟩⟩ | ⟨_, hOld₂⟩
      · exact absurd hOld₁ (hFree _ _)
      · exact hUnshared.once hOld₁ hOld₂
  inUse := by
    rw [hUnits]
    intro app' place' q hMapped
    rcases mapped_set hUnit hMapped with ⟨_, _, ⟨⟩⟩ | ⟨_, hOld⟩
    · exact hIn
    · exact hUsed (hUnshared.inUse hOld)

-- A place may give up its qubit, which is then no longer in use.
theorem clear (hUnshared : Unshared s) (hUnit : get? app s.units = some unit)
    (hPlace : unit[place]? = some (some qubit))
    (hUnits : t.units = put app (unit.set place none) s.units)
    (hUsed : s.used.erase qubit ⊆ t.used) : Unshared t where
  distinct := hUnits ▸ hUnshared.distinct.put _ _
  once := by
    rw [hUnits]
    intro _ _ _ _ q hOne hOther
    rcases mapped_set hUnit hOne with ⟨_, _, ⟨⟩⟩ | ⟨_, hOld₁⟩
    rcases mapped_set hUnit hOther with ⟨_, _, ⟨⟩⟩ | ⟨_, hOld₂⟩
    exact hUnshared.once hOld₁ hOld₂
  inUse := by
    rw [hUnits]
    intro _ _ q hMapped
    rcases mapped_set hUnit hMapped with ⟨_, _, ⟨⟩⟩ | ⟨hElsewhere, hOld⟩
    -- Only the place that is cleared held the qubit that is released.
    have hOther : q ≠ qubit := by
      rintro rfl
      rcases hUnshared.once hOld ⟨unit, hUnit, hPlace⟩ with ⟨rfl, rfl⟩
      exact hElsewhere rfl
    exact hUsed ((mem_erase_of_ne hOther).mpr (hUnshared.inUse hOld))

end Unshared

---- Operations on qubits

theorem effect_use (qubit : Int) (s : Node) :
    effect (use qubit) s =
      (.ok ⟨⟩, { s with used := if s.used.contains qubit then s.used else s.used ++ [qubit] }) :=
  rfl

theorem effect_release (hUsed : qubit ∈ s.used) :
    effect (release qubit) s = (.ok ⟨⟩, { s with used := s.used.erase qubit }) := by
  have hContains : s.used.contains qubit = true := by simpa using hUsed
  simp only [release, effect_bind, effect_get, hContains, if_true, effect_set]

theorem appOf_cases (sub : Nat) (s : Node) :
    (∃ e, effect (appOf sub) s = (.error e, s) ∧ e ≠ .noKey) ∨
      ∃ app, effect (appOf sub) s = (.ok app, s) ∧ get? sub s.subroutines = some (some app) := by
  simp only [appOf, effect_bind, effect_get]
  split
  · exact .inl ⟨_, rfl, by simp⟩
  · exact .inl ⟨_, rfl, by simp⟩
  · rename_i app hApp
    exact .inr ⟨app, rfl, hApp⟩

theorem unitOf_cases (app : Int) (s : Node) :
    (∃ e, effect (unitOf app) s = (.error e, s) ∧ e ≠ .noKey) ∨
      ∃ unit, effect (unitOf app) s = (.ok unit, s) ∧ get? app s.units = some unit := by
  simp only [unitOf, effect_bind, effect_get]
  split
  · rename_i unit hUnit
    exact .inr ⟨unit, rfl, hUnit⟩
  · exact .inl ⟨_, rfl, by simp⟩

theorem unitPlace_cases (unit : Block) (address : Int) (s : Node) :
    (∃ e, effect (unitPlace unit address) s = (.error e, s) ∧ e ≠ .noKey) ∨
      ∃ place, effect (unitPlace unit address) s = (.ok place, s) := by
  unfold unitPlace
  split
  · exact .inr ⟨_, rfl⟩
  · exact .inl ⟨_, rfl, by simp⟩

-- An allocation is refused and changes nothing, or it puts the given qubit, or else one that was
-- not in use, at a place.
theorem allocate_cases (sub : Nat) (address : Int) (physical : Option Int) (s : Node) :
    (∃ e, effect (allocate sub address physical) s = (.error e, s)) ∨ ∃ app unit place qubit t,
        effect (allocate sub address physical) s = (.ok qubit, t) ∧
        get? sub s.subroutines = some (some app) ∧
        get? app s.units = some unit ∧
        t = { s with units := put app (unit.set place (some qubit)) s.units, used := t.used } ∧
        (physical = some qubit ∧ t.used = s.used ∨
          physical = none ∧ qubit ∉ s.used ∧ s.used ⊆ t.used ∧ qubit ∈ t.used) := by
  rcases appOf_cases sub s with ⟨e, hApp, _⟩ | ⟨app, hApp, hOwner⟩
  · exact .inl ⟨e, by simp [allocate, effect_bind, hApp]⟩
  rcases unitOf_cases app s with ⟨e, hUnitOf, _⟩ | ⟨unit, hUnitOf, hUnit⟩
  · exact .inl ⟨e, by simp [allocate, effect_bind, hApp, hUnitOf]⟩
  by_cases hOutside : (unit.length : Int) ≤ address
  · exact .inl ⟨.node (.addressOutside address app unit.length), by
      simp [allocate, effect_bind, hApp, hUnitOf, hOutside]⟩
  rcases unitPlace_cases unit address s with ⟨e, hPlace, _⟩ | ⟨place, hPlace⟩
  · exact .inl ⟨e, by simp [allocate, effect_bind, hApp, hUnitOf, hOutside, hPlace]⟩
  cases hEntry : (unit[place]?).join with
  | some taken =>
    exact .inl ⟨.node (.alreadyAllocated address app), by
      simp [allocate, effect_bind, hApp, hUnitOf, hOutside, hPlace, hEntry]⟩
  | none =>
    right
    cases physical with
    | some qubit =>
      refine ⟨app, unit, place, qubit,
        { s with units := put app (unit.set place (some qubit)) s.units },
        ?_, hOwner, hUnit, rfl, .inl ⟨rfl, rfl⟩⟩
      simp only [allocate, effect_bind, hApp, hUnitOf, hOutside, if_false, hPlace, hEntry,
        effect_pure, setUnit, effect_modify]
    | none =>
      refine ⟨app, unit, place, unusedQubit s.used, { s with
          used := if s.used.contains (unusedQubit s.used) then s.used
            else s.used ++ [unusedQubit s.used]
          units := put app (unit.set place (some (unusedQubit s.used))) s.units },
        ?_, hOwner, hUnit, rfl, .inr ⟨rfl, unusedQubit_not_mem _, subset_use _ _, mem_use⟩⟩
      simp only [allocate, effect_bind, hApp, hUnitOf, hOutside, if_false, hPlace, hEntry,
        effect_get, effect_use, effect_pure, setUnit, effect_modify]

-- Freeing is refused and changes nothing, or it takes the qubit at a place away and releases it.
theorem free_cases (sub : Nat) (address : Int) (s : Node) :
    (∃ e, effect (free sub address) s = (.error e, s) ∧ e ≠ .noKey) ∨ ∃ app unit place qubit,
        get? sub s.subroutines = some (some app) ∧
        get? app s.units = some unit ∧ unit[place]? = some (some qubit) ∧
        effect (free sub address) s = effect (release qubit)
            { s with units := put app (unit.set place none) s.units } := by
  rcases appOf_cases sub s with ⟨e, hApp, hKey⟩ | ⟨app, hApp, hOwner⟩
  · exact .inl ⟨e, by simp [free, effect_bind, hApp], hKey⟩
  rcases unitOf_cases app s with ⟨e, hUnitOf, hKey⟩ | ⟨unit, hUnitOf, hUnit⟩
  · exact .inl ⟨e, by simp [free, effect_bind, hApp, hUnitOf], hKey⟩
  rcases unitPlace_cases unit address s with ⟨e, hPlace, hKey⟩ | ⟨place, hPlace⟩
  · exact .inl ⟨e, by simp [free, effect_bind, hApp, hUnitOf, hPlace], hKey⟩
  cases hEntry : (unit[place]?).join with
  | none =>
    exact .inl ⟨.node (.notAllocatedToFree address app), by
      simp [free, effect_bind, hApp, hUnitOf, hPlace, hEntry], by simp⟩
  | some qubit =>
    refine .inr ⟨app, unit, place, qubit, hOwner, hUnit, Option.join_eq_some_iff.mp hEntry, ?_⟩
    simp [free, effect_bind, hApp, hUnitOf, hPlace, hEntry, setUnit]

namespace Unshared

-- What is freed was in use, so that it can be released.
theorem free_eq (hUnshared : Unshared s) (sub : Nat) (address : Int) :
    (∃ e, effect (free sub address) s = (.error e, s) ∧ e ≠ .noKey) ∨
      ∃ t, effect (free sub address) s = (.ok ⟨⟩, t) ∧ Unshared t := by
  rcases free_cases sub address s with hRefused | ⟨_, unit, _, qubit, _, hUnit, hPlace, hFree⟩
  · exact .inl hRefused
  · have hUsed : qubit ∈ s.used := hUnshared.inUse ⟨unit, hUnit, hPlace⟩
    exact .inr ⟨_, hFree.trans (effect_release hUsed), hUnshared.clear hUnit hPlace rfl (Subset.refl _)⟩

end Unshared

---- Applications

def qubitsIn (unit : Block) : List Int := unit.filterMap fun entry => entry

theorem mem_qubitsIn : qubit ∈ qubitsIn unit ↔ ∃ place : Nat, unit[place]? = some (some qubit) := by
  rw [qubitsIn, mem_filterMap]
  simp only [exists_eq_right]
  exact mem_iff_getElem?

theorem nodup_qubitsIn
    (hOnce : ∀ (place place' : Nat) (qubit : Int),
        unit[place]? = some (some qubit) → unit[place']? = some (some qubit) →
          place = place') : (qubitsIn unit).Nodup := by
  induction unit with
  | nil => exact nodup_nil
  | cons entry rest ih =>
    have hRest : (qubitsIn rest).Nodup := ih fun place place' qubit hOne hOther =>
      Nat.succ.inj (hOnce (place + 1) (place' + 1) qubit hOne hOther)
    cases entry with
    | none => exact hRest
    | some q =>
      refine nodup_cons.mpr ⟨fun hAgain => ?_, hRest⟩
      rcases mem_qubitsIn.mp hAgain with ⟨place, hPlace⟩
      exact absurd (hOnce 0 (place + 1) q rfl hPlace) (by simp)

theorem effect_releaseAll (hNodup : (qubitsIn unit).Nodup) (hUsed : qubitsIn unit ⊆ s.used) :
    effect (releaseAll unit) s =
      (.ok ⟨⟩, { s with used := (qubitsIn unit).foldl List.erase s.used }) := by
  fun_induction releaseAll unit generalizing s with
  | case1 => rfl
  | case2 _ ih => exact ih hNodup hUsed
  | case3 q _ ih =>
    rcases nodup_cons.mp hNodup with ⟨hHead, hRest⟩
    have hHere : q ∈ s.used := hUsed mem_cons_self
    simp only [effect_bind, effect_release hHere]
    refine ih hRest fun other hOther => ?_
    have hOtherThan : other ≠ q := fun hSame => hHead (hSame ▸ hOther)
    exact (mem_erase_of_ne hOtherThan).mpr (hUsed (mem_cons_of_mem _ hOther))

namespace Unshared
variable (hUnshared : Unshared s)
include hUnshared
theorem renew {maxQubits : Int} (hUnits : t.units = put app (Block.fresh maxQubits) s.units)
    (hUsed : t.used = s.used) : Unshared t := by
  have hOld :
      ∀ {other place qubit}, Mapped t.units other place qubit →
        Mapped s.units other place qubit := by
    intro other place qubit hMapped
    rw [hUnits] at hMapped
    rcases mapped_put hMapped with ⟨_, hPlace⟩ | ⟨_, hMapped⟩
    · exact absurd (eq_of_mem_replicate (mem_of_getElem? hPlace)) (by simp)
    · exact hMapped
  exact {
    distinct := hUnits ▸ hUnshared.distinct.put _ _
    once := fun hOne hOther => hUnshared.once (hOld hOne) (hOld hOther)
    inUse := fun hMapped => hUsed ▸ hUnshared.inUse (hOld hMapped) }

theorem initApp (app maxQubits : Int) : Unshared (effect (initApp app maxQubits) s).2 := by
  have hUnit : Unshared (effect (setUnit app (Block.fresh maxQubits)) s).2 :=
    hUnshared.renew rfl rfl
  refine bind hUnit fun _ t _ hSet => quiet hSet ?_
  exact Quiet.trait.bind (Quiet.modify (fun _ => rfl) fun _ => rfl) fun _ =>
    Quiet.setFrom (fun _ _ => rfl) fun _ _ => rfl

theorem effect_releaseAll (hUnit : get? app s.units = some unit) :
    effect (releaseAll unit) { s with units := erase app s.units } = (.ok ⟨⟩, { s with
        units := erase app s.units
        used := (qubitsIn unit).foldl List.erase s.used }) := by
  refine Node.effect_releaseAll ?_ ?_
  · exact nodup_qubitsIn fun place _ qubit hOne hOther =>
      (hUnshared.once ⟨unit, hUnit, hOne⟩ ⟨unit, hUnit, hOther⟩).2
  · intro qubit hMember
    rcases mem_qubitsIn.mp hMember with ⟨place, hPlace⟩
    exact hUnshared.inUse ⟨unit, hUnit, hPlace⟩

theorem remove (hUnit : Table.get? app s.units = some unit)
    (hUnits : t.units = Table.erase app s.units)
    (hUsed : t.used = (qubitsIn unit).foldl List.erase s.used) : Unshared t := by
  have hOld :
      ∀ {other place qubit}, Mapped t.units other place qubit →
        other ≠ app ∧ Mapped s.units other place qubit := by
    rintro other place qubit ⟨found, hFound, hPlace⟩
    rw [hUnits] at hFound
    have hOther : other ≠ app := by
      rintro rfl
      rw [hUnshared.distinct.get?_erase_self] at hFound
      cases hFound
    rw [Table.get?_erase_of_ne hOther] at hFound
    exact ⟨hOther, found, hFound, hPlace⟩
  exact {
    distinct := hUnits ▸ hUnshared.distinct.erase _
    once := fun hOne hOther => hUnshared.once (hOld hOne).2 (hOld hOther).2
    inUse := by
      intro other place qubit hMapped
      rcases hOld hMapped with ⟨hOther, hMapped⟩
      rw [hUsed, ← diff_eq_foldl]
      refine mem_diff_of_mem (hUnshared.inUse hMapped) fun hReleased => ?_
      rcases mem_qubitsIn.mp hReleased with ⟨_, hPlace⟩
      exact hOther (hUnshared.once hMapped ⟨unit, hUnit, hPlace⟩).1 }

theorem stopApp (app : Int) : Unshared (effect (stopApp app) s).2 := by
  cases hUnit : get? app s.units with
  | none =>
    simp only [Node.stopApp, effect_bind, effect_get, hUnit]
    exact hUnshared
  | some unit =>
    have hLeft := hUnshared.remove (t := { s with
        units := erase app s.units
        used := (qubitsIn unit).foldl List.erase s.used }) hUnit rfl rfl
    simp only [Node.stopApp, effect_bind, effect_get, hUnit, effect_set,
      hUnshared.effect_releaseAll hUnit]
    -- What is left to do concerns classical memories only.
    split
    · exact hLeft
    · simp only [effect_bind, effect_get, effect_set]
      split
      · exact hLeft.mono rfl (Subset.refl _)
      · simp only [effect_bind, effect_get, effect_set]
        split <;> exact hLeft.mono rfl (Subset.refl _)

end Unshared

end Node

end QuantumNode

namespace QuantumNode.Node
open Quiet
variable {operands : List Operand} {sub : Nat} {s : Node} {op : Op} {r : Response}
variable {α : Type}

-- A pair with the next node, in a qubit.
def keptIn (qubit : Int) : KeepOk where
  tag := .okKeep
  createId := .int 0
  logicalQubit := .int qubit
  direction := .int 1
  sequence := .int 0
  purpose := .int 0
  remoteNode := .int 1
  goodness := .int 0
  goodnessTime := .int 0
  bellState := .int 0

-- A response leaves the mapping as it is, or it maps one place to the qubit that it names, which is
-- then in use.
def Takes (r : Response) (s t : Node) : Prop :=
  (t.units = s.units ∧ s.used ⊆ t.used) ∨ ∃ k app unit place, r = .keep k ∧
      Table.get? app s.units = some unit ∧
      t.units = Table.put app (unit.set place (some k.logicalQubit.number)) s.units ∧
      s.used ⊆ t.used ∧ k.logicalQubit.number ∈ t.used

namespace Takes
variable {x : NodeM α}

theorem of_quiet (hQuiet : Quiet x) (r : Response) (s : Node) : Takes r s (effect x s).2 :=
  .inl ⟨hQuiet.units s, by rw [hQuiet.used s]; exact Subset.refl _⟩

-- What is done first may leave the qubits alone.
theorem after_quiet (hQuiet : Quiet x) (hThen : ∀ a t, Takes r t (effect (f a) t).2) :
    Takes r s (effect (x >>= f) s).2 := by
  have hUnits := hQuiet.units s
  have hUsed := hQuiet.used s
  rw [effect_bind]
  generalize effect x s = outcome at hUnits hUsed
  rcases outcome with ⟨e | a, t⟩
  · exact .inl ⟨hUnits, by rw [hUsed]; exact Subset.refl _⟩
  · have hTakes := hThen a t
    simp only [Takes] at hTakes
    rwa [hUnits, hUsed] at hTakes

-- What is done last may leave the qubits alone.
theorem then_quiet (hFirst : Takes r s (effect x s).2) (hQuiet : ∀ a, Quiet (f a)) :
    Takes r s (effect (x >>= f) s).2 := by
  rw [effect_bind]
  rcases hEffect : effect x s with ⟨e | a, t⟩ <;> rw [hEffect] at hFirst
  · exact hFirst
  · have hUnits := (hQuiet a).units t
    have hUsed := (hQuiet a).used t
    simp only [Takes] at ⊢
    rwa [hUnits, hUsed]

theorem refuse {p : Prop} [Decidable p] (hElse : Takes r s (effect (k ()) s).2) :
    Takes r s (effect (if p then (throw f >>= k) else k ()) s).2 := by
  split
  · exact .inl ⟨rfl, Subset.refl _⟩
  · exact hElse

theorem acceptKeep (task : PairTask) (pair : Int) (r : Response) (s : Node) :
    Takes r s (effect (acceptKeep task pair r) s).2 := by
  refine after_quiet (trait.appOf _) fun app s => after_quiet (trait.virtualOf app task pair)
    fun address s => after_quiet (Quiet.hasVirtual app address) fun _ s => ?_
  split
  · exact of_quiet (trait.pure _) r s
  · cases r with
    | keep k =>
      simp only [effect_bind, effect_use]
      rcases allocate_cases task.subroutine address (some k.logicalQubit.number)
          { s with used :=
              if s.used.contains k.logicalQubit.number then s.used
              else s.used ++ [k.logicalQubit.number] } with
        ⟨e, hRefused⟩ | ⟨app', unit, place, qubit, t, hDone, _, hUnit, hShape, hGiven | hFound⟩
      · -- The qubit stays in use without an address.
        rw [hRefused]
        exact .inl ⟨rfl, subset_use _ _⟩
      · rcases hGiven with ⟨⟨⟩, hUsed⟩
        rw [hDone]
        refine .inr ⟨k, app', unit, place, rfl, hUnit, congrArg Node.units hShape, ?_, ?_⟩
        · exact fun _ hMember => hUsed ▸ subset_use _ _ hMember
        · exact hUsed ▸ mem_use
      · exact absurd hFound.1 (by simp)
    | _ => exact of_quiet (trait.throw _) _ s

theorem accept (task : PairTask) (pair : Int) (r : Response) (s : Node) :
    Takes r s (effect (accept task pair r) s).2 := by
  unfold Node.accept
  split
  · exact acceptKeep task pair r s
  · exact of_quiet (trait.pure _) r s
  all_goals exact of_quiet (trait.throw _) r s

theorem handleOne (place : Nat) (r : Response) (s : Node) :
    Takes r s (effect (handleOne place r) s).2 := by
  apply refuse
  refine after_quiet Quiet.get fun _ s => after_quiet (trait.lift _) fun _ s => ?_
  split
  · exact of_quiet (trait.throw _) r s
  · dsimp only
    split
    · exact of_quiet (trait.pure _) r s
    · refine then_quiet (accept _ _ r s) fun _ => trait.ite (trait.pure _) ?_
      exact trait.bind (trait.countPair _ _) fun _ =>
        trait.bind (trait.storeResult _ _ r) fun _ =>
          Quiet.trait.answer (Quiet.modify (fun _ => rfl) fun _ => rfl)

end Takes

-- What an instruction may wait for; looking whether it holds leaves the qubits alone.
structure Condition where
  ready : NodeM Bool
  quiet : Quiet ready

-- The condition that an instruction waits for, if it is one that waits.
def waitsFor? (sub : Nat) (op : Op) (operands : List Operand) : Option (NodeM Condition) :=
  match op, operands with
  | .waitAll, [.slice a lo hi] => some do
    let app ← appOf sub
    let slice ← evalSlice app lo hi
    return ⟨allDefined app a slice, trait.allDefined app a slice⟩
  | .waitAny, [.slice a lo hi] => some do
    let app ← appOf sub
    return ⟨anyDefined app a lo hi, trait.anyDefined app a lo hi⟩
  | .waitSingle, [.entry a i] => some do
    let app ← appOf sub
    return ⟨do return (← readEntry app a i).isSome, trait.entryDefined app a i⟩
  | _, _ => none

theorem isSome_waitsFor? (sub : Nat) (op : Op) (os : List Operand) :
    (waitsFor? sub op os).isSome = waits op os := by
  unfold waits
  split
  iterate 3 rfl
  unfold waitsFor?
  split <;> simp_all

theorem Quiet.waitsFor (hWaits : waitsFor? sub op os = some c) : Quiet c := by
  unfold waitsFor? at hWaits
  split at hWaits <;> cases hWaits
  · exact trait.bind (trait.appOf _) fun _ => trait.answer (trait.evalSlice _ _ _)
  all_goals exact trait.answer (trait.appOf _)

def patience (s : Node) : Nat := 2 * s.arrivals.length + s.pending.length + 2

theorem perform_waits (hWaits : waitsFor? sub op os = some c) (family : Family) :
    perform sub family op os = (do
      let condition ← c
      waitUntil condition.ready
      return none) := by
  unfold waitsFor? at hWaits
  split at hWaits <;> cases hWaits <;> simp [perform, performWith]

end QuantumNode.Node
