import Mathlib.Data.List.Basic
import QuantumNode.Proofs.Effect
import QuantumNode.Session.Pairs

/-
  What the operations of a session leave as it was. Commands are added behind those that are
  pending, registers in use stay so, futures stay where they are, and open blocks are not touched.
  Some operations add nothing: values are looked up, futures and qubits are named, arrays are
  planned.
-/

open List

namespace QuantumNode
open Allocation Item Table
variable {items : List Item} {id : Nat} {a : PUnit} {r : Reg}

def Item.bare : Item → Item
  | command c => command { c with line := none }
  | label name _ => label name none

namespace Session
variable {α : Type} {s t u : Session}

abbrev inUse (s : Session) : List Reg := s.allocation.registers

theorem bare_withLine (line : Option HostLine) (item : Item) :
    (withLine line item).bare = item.bare := by
  cases item <;> rfl

theorem map_bare_withLine (line : Option HostLine) (items : List Item) :
    (items.map (withLine line)).map bare = items.map bare := by
  rw [map_map]
  exact map_congr_left fun item _ => bare_withLine line item

def place? (s : Session) (id : Nat) : Option Place := s.futures[id]?.map FutureCell.place

-- What is kept apart from pending commands. A future of no register yet may get one.
structure Frame (s t : Session) : Prop where
  registers : s.allocation.registers ⊆ t.allocation.registers
  places : ∀ id place, place? s id = some place → place ≠ .register none → place? t id = some place
  contexts : ∀ id, id < s.nextContext → get? id t.contexts = get? id s.contexts
  nextContext : s.nextContext ≤ t.nextContext

namespace Frame

protected theorem refl (s : Session) : Frame s s :=
  ⟨fun _ hr => hr, fun _ _ hPlace _ => hPlace, fun _ _ => rfl, Nat.le_refl _⟩

protected theorem trans (hFirst : Frame s t) (hThen : Frame t u) : Frame s u := by
  refine ⟨fun r hr => hThen.registers (hFirst.registers hr), ?_, ?_,
    Nat.le_trans hFirst.nextContext hThen.nextContext⟩
  · intro id place hPlace hKnown
    exact hThen.places id place (hFirst.places id place hPlace hKnown) hKnown
  · intro id hId
    rw [hThen.contexts id (Nat.lt_of_lt_of_le hId hFirst.nextContext), hFirst.contexts id hId]

-- A register that was not in use may be taken out of use again.
theorem released (hFrame : Frame s t) (hUnused : r ∉ s.inUse) :
    Frame s { t with
      allocation := { t.allocation with registers := t.inUse.erase r } } := by
  refine ⟨fun q hq => ?_, hFrame.places, hFrame.contexts, hFrame.nextContext⟩
  have hOther : q ≠ r := by
    rintro rfl
    exact hUnused hq
  exact (mem_erase_of_ne hOther).mpr (hFrame.registers hq)

end Frame

-- Commands are added behind those that were pending.
structure Keeps (s t : Session) : Prop extends Frame s t where
  pending : s.pending.map bare <+: t.pending.map bare

namespace Keeps

protected theorem refl (s : Session) : Keeps s s := ⟨.refl s, prefix_rfl⟩

protected theorem trans (hFirst : Keeps s t) (hThen : Keeps t u) : Keeps s u :=
  ⟨hFirst.toFrame.trans hThen.toFrame, hFirst.pending.trans hThen.pending⟩

end Keeps

-- Operations that keep what there is.
def Proper (x : SessionM α) : Prop := ∀ s a t, effect x s = (.ok a, t) → Keeps s t

---- Items

def withPending (items : List Item) (s : Session) : Session := { s with pending := items }

theorem currentLine_ok {line : Option HostLine} (hEffect : effect currentLine s = (.ok line, t)) :
    t = s := by
  rw [currentLine, effect_get_bind] at hEffect
  split at hEffect
  · cases hEffect
    rfl
  · rcases of_bind_ok hEffect with ⟨_, _, hFind, ⟨⟩⟩
    exact (effect_lift_ok hFind).2

theorem add_ok (hEffect : effect (add items) s = (.ok a, t)) :
    ∃ line, t = withPending (s.pending ++ items.map (withLine line)) s := by
  rcases of_bind_ok hEffect with ⟨line, _, hLine, hDone⟩
  cases currentLine_ok hLine
  cases hDone
  exact ⟨line, rfl⟩

theorem addOne_ok (hEffect : effect (addOne item) s = (.ok a, t)) :
    ∃ line, t = withPending (s.pending ++ [withLine line item]) s := by
  unfold addOne at hEffect
  split at hEffect
  · rcases of_bind_ok hEffect with ⟨line, _, hLine, hDone⟩
    cases currentLine_ok hLine
    cases hDone
    exact ⟨line, rfl⟩
  · cases hEffect
    exact ⟨none, rfl⟩

theorem takeAll_bind_ok {f : List Item → SessionM α} {a : α}
    (hEffect : effect (takeAll >>= f) s = (.ok a, t)) :
    effect (f s.pending) (withPending [] s) = (.ok a, t) :=
  hEffect

theorem proper_addOne (item : Item) : Proper (addOne item) := by
  intro s a t hEffect
  rcases addOne_ok hEffect with ⟨_, rfl⟩
  refine ⟨⟨fun _ hr => hr, fun _ _ hPlace _ => hPlace, fun _ _ => rfl, Nat.le_refl _⟩, ?_⟩
  exact (prefix_append _ _).map bare

---- Registers

def withRegisters (rs : List Reg) (s : Session) : Session :=
  { s with allocation := { s.allocation with registers := rs } }

theorem inactive_ok {a : Allocation HostArray} (hFree : a.inactive = .ok r) :
    r ∈ Reg.ofBank .r ∧ r ∉ a.registers := by
  unfold inactive at hFree
  split at hFree
  · rename_i _ hFound
    cases hFree
    have hUnused := find?_some hFound
    refine ⟨mem_of_find?_eq_some hFound, ?_⟩
    simpa [isUsed] using hUnused
  · cases hFree

theorem allocate_ok (hEffect : effect (allocate f) s = (.ok a, t)) :
    ∃ allocation, f s.allocation = .ok allocation ∧ t = { s with allocation := allocation } := by
  rw [allocate, effect_get_bind] at hEffect
  rcases of_bind_ok hEffect with ⟨allocation, _, hChange, ⟨⟩⟩
  exact ⟨allocation, (effect_lift_ok hChange).1, rfl⟩

theorem occupy_ok (hEffect : effect (allocate (·.occupy r)) s = (.ok a, t)) :
    t = withRegisters (s.inUse ++ [r]) s := by
  rcases allocate_ok hEffect with ⟨allocation, hOccupy, rfl⟩
  unfold occupy at hOccupy
  split at hOccupy
  · cases hOccupy
  · cases hOccupy
    rfl

theorem release_ok (hEffect : effect (release r) s = (.ok a, t)) :
    t = withRegisters (s.inUse.erase r) s := by
  rcases allocate_ok hEffect with ⟨allocation, hRelease, rfl⟩
  unfold Allocation.release at hRelease
  split at hRelease
  · cases hRelease
    rfl
  · cases hRelease

theorem release_length (hEffect : effect (release r) s = (.ok a, t)) :
    t.inUse.length + 1 = s.inUse.length := by
  rcases allocate_ok hEffect with ⟨_, hRelease, rfl⟩
  unfold Allocation.release at hRelease
  split at hRelease
  · rename_i hUsed
    cases hRelease
    exact length_erase_add_one (by simpa [isUsed] using hUsed)
  · cases hRelease

theorem freeRegister_ok (hEffect : effect freeRegister s = (.ok r, t)) :
    r ∈ Reg.ofBank .r ∧ r ∉ s.inUse ∧ t = s := by
  rcases effect_lift_ok hEffect with ⟨hFree, rfl⟩
  exact ⟨(inactive_ok hFree).1, (inactive_ok hFree).2, rfl⟩

theorem takeRegister_ok (hEffect : effect takeRegister s = (.ok r, t)) :
    r ∈ Reg.ofBank .r ∧ r ∉ s.inUse ∧ t = withRegisters (s.inUse ++ [r]) s := by
  rcases of_bind_ok hEffect with ⟨q, s', hFree, hLater⟩
  rcases freeRegister_ok hFree with ⟨hStandard, hUnused, rfl⟩
  rcases of_bind_ok hLater with ⟨_, _, hOccupy, ⟨⟩⟩
  exact ⟨hStandard, hUnused, occupy_ok hOccupy⟩

theorem frame_taken (s : Session) (rs : List Reg) : Frame s (withRegisters (s.inUse ++ rs) s) :=
  ⟨subset_append_left _ _, fun _ _ hPlace _ => hPlace, fun _ _ => rfl, Nat.le_refl _⟩

theorem frame_withPending (s : Session) (items : List Item) : Frame s (withPending items s) :=
  ⟨fun _ hr => hr, fun _ _ hPlace _ => hPlace, fun _ _ => rfl, Nat.le_refl _⟩

theorem releaseAll_ok (hEffect : effect (releaseAll rs) s = (.ok a, t)) :
    t = withRegisters (rs.foldl List.erase s.inUse) s ∧
      t.inUse.length + rs.length = s.inUse.length := by
  induction rs generalizing s with
  | nil =>
    cases hEffect
    exact ⟨rfl, rfl⟩
  | cons r rest ih =>
    rcases of_bind_ok hEffect with ⟨_, s', hFirst, hRest⟩
    have hLess := release_length hFirst
    cases release_ok hFirst
    rcases ih hRest with ⟨hSame, hLength⟩
    exact ⟨hSame, by rw [length_cons, ← hLess, ← hLength, Nat.add_assoc]⟩

def withLabels (supply : LabelSupply) (s : Session) : Session := { s with labels := supply }

theorem freshLabel_ok {name label : String}
    (hEffect : effect (freshLabel name) s = (.ok label, t)) :
    ∃ supply, t = withLabels supply s := by
  cases hEffect
  exact ⟨_, rfl⟩

theorem frame_withLabels (s : Session) (supply : LabelSupply) : Frame s (withLabels supply s) :=
  ⟨fun _ hr => hr, fun _ _ hPlace _ => hPlace, fun _ _ => rfl, Nat.le_refl _⟩

def withFuture (cell : FutureCell) (s : Session) : Session :=
  { s with futures := s.futures.push cell }

theorem newFuture_ok (hEffect : effect (newFuture place) s = (.ok id, t)) :
    id = s.futures.size ∧ t = withFuture ⟨place, none⟩ s := by
  cases hEffect
  exact ⟨rfl, rfl⟩

theorem place?_withFuture (s : Session) (cell : FutureCell) :
    (withFuture cell s).place? s.futures.size = some cell.place := by
  simp [withFuture, place?]

theorem frame_withFuture (s : Session) (cell : FutureCell) : Frame s (withFuture cell s) := by
  refine ⟨fun _ hr => hr, fun id place hPlace _ => ?_, fun _ _ => rfl, Nat.le_refl _⟩
  rcases Option.map_eq_some_iff.mp hPlace with ⟨_, hFound, rfl⟩
  have hBound : id < s.futures.size := (Array.getElem?_eq_some_iff.mp hFound).1
  have hSame : (s.futures.push cell)[id]? = s.futures[id]? := by
    rw [Array.getElem?_push_lt hBound, Array.getElem?_eq_getElem hBound]
  simp [place?, withFuture, hSame, hFound]

theorem futureCell_of_place (hPlace : s.place? id = some place) :
    ∃ known, effect (futureCell id) s = (.ok ⟨place, known⟩, s) := by
  rcases Option.map_eq_some_iff.mp hPlace with ⟨⟨place', known⟩, hCell, rfl⟩
  refine ⟨known, ?_⟩
  simp only [futureCell, effect_get_bind, Array.getD_eq_getD_getElem?, hCell]
  rfl

def withContext (c : Context) (s : Session) : Session :=
  { s with
    nextContext := s.nextContext + 1
    contexts := put s.nextContext c s.contexts }

theorem frame_withContext (s : Session) (c : Context) : Frame s (withContext c s) := by
  refine ⟨fun _ hr => hr, fun _ _ hPlace _ => hPlace, fun _ hId => ?_, Nat.le_succ _⟩
  exact get?_put_of_ne (Nat.ne_of_lt hId) _ _

-- What was kept for a block is found at its end, and nothing else was lost.
theorem closeContext_ok {c c' : Context} (hFrame : Frame (withContext c s) t)
    (hEffect : effect (closeContext s.nextContext lost) t = (.ok c', u)) :
    c' = c ∧ u = { t with contexts := erase s.nextContext t.contexts } ∧ Frame s u := by
  have hKept : get? s.nextContext t.contexts = some c := by
    rw [hFrame.contexts s.nextContext (Nat.lt_succ_self _)]
    exact get?_put_self _ _ _
  have hOuter := (frame_withContext s c).trans hFrame
  rw [closeContext, effect_get_bind, hKept] at hEffect
  cases hEffect
  refine ⟨rfl, rfl, hOuter.registers, hOuter.places, fun other hOther => ?_, hOuter.nextContext⟩
  exact (get?_erase_of_ne (Nat.ne_of_lt hOther) _).trans (hOuter.contexts other hOther)

-- A session in which a condition is open.
def guardedFrom (s : Session) : Session := withPending [] (withContext ⟨s.pending, none⟩ s)

theorem ifBlock_parts {body : SessionM Unit} {a : Unit}
    (hEffect : effect (ifBlock op left right body) s = (.ok a, t)) :
    ∃ b u, effect body (guardedFrom s) = (.ok b, u) ∧ (Frame (guardedFrom s) u →
      ∃ contexts, Frame s { withPending [] u with contexts := contexts } ∧
        effect (addCondition s.pending u.pending op left right)
          { withPending [] u with contexts := contexts } = (.ok a, t)) := by
  rcases of_bind_ok hEffect with ⟨_, _, ⟨⟩, hLater⟩
  rcases of_bind_ok hLater with ⟨_, s₂, hOpen, hLater⟩
  have hOpened : s₂ = guardedFrom s := by
    cases hOpen
    rfl
  subst hOpened
  rcases effect_tryFinally_ok hLater with ⟨b, u, hInside, hClose⟩
  refine ⟨b, u, hInside, fun hWithin => ?_⟩
  rcases of_bind_ok (takeAll_bind_ok hClose) with ⟨_, _, hContext, hAdd⟩
  have hAround := ((frame_withPending _ []).trans hWithin).trans (frame_withPending u [])
  rcases closeContext_ok hAround hContext with ⟨rfl, rfl, hFrame⟩
  exact ⟨_, hFrame, hAdd⟩

---- Code that is added

-- Code is added behind what was pending.
structure Adds (code : List Item) (s t : Session) : Prop extends Frame s t where
  pending : t.pending.map bare = s.pending.map bare ++ code

namespace Adds

protected theorem refl (s : Session) : Adds [] s s := ⟨.refl s, by rw [append_nil]⟩

protected theorem trans (hFirst : Adds code s t) (hThen : Adds others t u) :
    Adds (code ++ others) s u :=
  ⟨hFirst.toFrame.trans hThen.toFrame, by rw [hThen.pending, hFirst.pending, List.append_assoc]⟩

theorem nothing (hFrame : Frame s t) (hPending : t.pending = s.pending) : Adds [] s t :=
  ⟨hFrame, by rw [hPending, append_nil]⟩

theorem after (hFrame : Frame s t) (hPending : t.pending = s.pending) (hThen : Adds code t u) :
    Adds code s u :=
  (nothing hFrame hPending).trans hThen

-- A register that was not in use may be taken out of use again.
theorem released (hAdds : Adds code s t) (hUnused : r ∉ s.allocation.registers) :
    Adds code s (withRegisters (t.allocation.registers.erase r) t) :=
  ⟨hAdds.toFrame.released hUnused, hAdds.pending⟩

theorem releasedAll (hAdds : Adds code s t) {rs : List Reg}
    (hUnused : ∀ r ∈ rs, r ∉ s.allocation.registers) :
    Adds code s (withRegisters (rs.foldl List.erase t.allocation.registers) t) := by
  refine ⟨⟨fun r hr => ?_, hAdds.places, hAdds.contexts, hAdds.nextContext⟩, hAdds.pending⟩
  rw [← diff_eq_foldl]
  exact mem_diff_of_mem (hAdds.registers hr) fun hGiven => hUnused r hGiven hr

end Adds

theorem adds_add (hEffect : effect (add items) s = (.ok a, t)) :
    Adds (items.map bare) s t := by
  rcases add_ok hEffect with ⟨line, rfl⟩
  refine ⟨frame_withPending s _, ?_⟩
  simp only [withPending, map_append, map_bare_withLine]

theorem addLoop_adds {before body : List Item} {range : LoopRange} (hSome : body ≠ [])
    (hEffect : effect (addLoop before body range r) s = (.ok a, t)) :
    ∃ labels, Adds (before.map bare ++ loopItems labels r range (body.map bare)) s t := by
  rw [addLoop, if_neg (by simpa using hSome)] at hEffect
  rcases of_binds_ok hEffect with ⟨entry, _, hEntry, exit, _, hExit, hAdd⟩
  rcases freshLabel_ok hEntry with ⟨supply, rfl⟩
  rcases freshLabel_ok hExit with ⟨supply', rfl⟩
  have hAdds := adds_add hAdd
  simp only [loopItems, map_append] at hAdds
  exact ⟨⟨entry, exit⟩,
    .after ((frame_withLabels s supply).trans (frame_withLabels _ supply')) rfl hAdds⟩

-- What stood before a block stands before it again.
theorem adds_of_closed (hFrame : Frame s v) (hNothing : v.pending = [])
    (hClosed : Adds (s.pending.map bare ++ code) v t) : Adds code s t := by
  refine ⟨hFrame.trans hClosed.toFrame, ?_⟩
  rw [hClosed.pending, hNothing]
  rfl

end Session

end QuantumNode

namespace QuantumNode.Session
variable {request : PairRequest} {s t : Session} {g : Session → Session}
variable {α : Type}

def still (s : Session) : List Item × Hardware := (s.pending, s.hardware)

-- Nothing is added, and the hardware stays the same.
def Calm (x : SessionM α) : Prop := ∀ s, still (effect x s).2 = still s

namespace Calm

protected theorem pure (a : α) : Calm (pure a : SessionM α) := fun _ => rfl

protected theorem throw (e : Fault) : Calm (throw e : SessionM α) := fun _ => rfl

protected theorem lift (c : Checked α) : Calm (liftM c : SessionM α) := fun _ => rfl

protected theorem get : Calm (get : SessionM Session) := fun _ => rfl

protected theorem modify (hStill : ∀ s, still (g s) = still s) :
    Calm (modify g : SessionM PUnit) :=
  hStill

variable {x : SessionM α}

protected theorem bind (hFirst : Calm x) (hThen : ∀ a, Calm (f a)) : Calm (x >>= f) := by
  intro s
  have hKept := hFirst s
  rw [effect_bind]
  generalize effect x s = outcome at hKept
  rcases outcome with ⟨e | a, t⟩
  · exact hKept
  · exact (hThen a t).trans hKept

theorem kept (hCalm : Calm x) (hEffect : effect x s = (.ok a, t)) :
    t.pending = s.pending ∧ t.hardware = s.hardware := by
  have hKept := hCalm s
  rw [hEffect] at hKept
  exact Prod.mk.inj hKept

protected theorem tryCatch (hFirst : Calm x) (hThen : ∀ e, Calm (f e)) : Calm (tryCatch x f) := by
  intro s
  have hKept := hFirst s
  rw [effect_tryCatch]
  generalize effect x s = outcome at hKept
  rcases outcome with ⟨e | a, t⟩
  · exact (hThen e t).trans hKept
  · exact hKept

protected theorem ite {p : Prop} [Decidable p] (hThen : Calm x) (hElse : Calm y) :
    Calm (if p then x else y) := by
  split
  · exact hThen
  · exact hElse

-- What is read decides what is put in its place.
protected theorem replace {f : Session → SessionM α} (hStill : ∀ s, still (g s) = still s)
    (hThen : ∀ s, Calm (f s)) :
    Calm (do
      let s ← get
      set (g s)
      f s) :=
  fun s => (hThen s (g s)).trans (hStill s)

protected theorem mapM (hEach : ∀ a, Calm (f a)) (xs : List α) : Calm (xs.mapM f) := by
  induction xs with
  | nil => exact .pure _
  | cons x rest ih =>
    rw [mapM_cons]
    exact (hEach x).bind fun _ => ih.bind fun _ => .pure _

---- Values

theorem newFuture (place : Place) : Calm (newFuture place) := fun _ => rfl

theorem sharedMemory (node : Node) : Calm (sharedMemory node) := by
  intro s
  rw [Session.sharedMemory, effect_get_bind]
  split <;> exact rfl

theorem lookup (place : Place) : Calm (lookup place) := by
  have hNode : ∀ node : Node, ∀ f : SharedMemory → SessionM (Option Int),
      (∀ m, Calm (f m)) → Calm (Session.sharedMemory node >>= f) :=
    fun node f hThen => (sharedMemory node).bind hThen
  unfold Session.lookup
  split
  · split
    · refine Calm.get.bind fun s => ?_
      split
      · exact .pure _
      · exact hNode _ _ fun m => .lift _
    · exact .throw _
  · exact .throw _
  · refine Calm.get.bind fun s => ?_
    split
    · exact .lift _
    · exact hNode _ _ fun m => .lift _

theorem valueOf (id : Nat) : Calm (valueOf id) := by
  refine Calm.bind (.bind .get fun _ => .pure _) fun _ => ?_
  split
  · exact .pure _
  · exact (lookup _).bind fun v => .bind (.modify fun _ => rfl) fun _ => .pure _

theorem knownValue (id : Nat) : Calm (knownValue id) := by
  refine (valueOf id).bind fun v => ?_
  split
  · exact .pure _
  · exact .bind (.bind (.bind .get fun _ => .pure _) fun _ =>
      (valueOf id).bind fun _ => .pure _) fun _ => .throw _

theorem futureTextWithin (depth id : Nat) : Calm (futureTextWithin depth id) := by
  induction depth generalizing id with
  | zero => exact .pure _
  | succ depth ih =>
    refine Calm.bind (.bind .get fun _ => .pure _) fun cell => ?_
    rcases cell with ⟨place, _⟩
    cases place with
    | entry address index =>
      refine (valueOf id).bind fun v => ?_
      cases v with
      | some v => exact .pure _
      | none =>
        cases index with
        | future inner => exact (ih inner).bind fun _ => .pure _
        | _ => exact .pure _
    | register r =>
      cases r with
      | none =>
        refine .bind (.throw _) fun _ => (valueOf id).bind fun v => ?_
        cases v <;> exact .pure _
      | some r =>
        refine (valueOf id).bind fun v => ?_
        cases v <;> exact .pure _

theorem operandOf (v : Value) : Calm (operandOf v) := by
  cases v with
  | future id =>
    exact .bind (.tryCatch (.bind .get fun _ => futureTextWithin _ id) fun _ => .pure _)
      fun _ => .pure _
  | _ => exact .pure _

theorem valueText (v : Value) : Calm (valueText v) := by
  cases v with
  | future id => exact .bind .get fun _ => futureTextWithin _ id
  | _ => exact .pure _

theorem isTaken (n : Int) (qubits : List Nat) : Calm (isTaken n qubits) := by
  induction qubits with
  | nil => exact .pure _
  | cons q rest ih =>
    refine .bind (.bind .get fun _ => .pure _) fun _ => .bind ?_ fun _ => .ite (.pure _) ih
    unfold hasAddress
    split
    · exact .pure _
    · exact (knownValue _).bind fun _ => .pure _

theorem freeAddress : Calm freeAddress := by
  have hTries : ∀ qubits tries n, Calm (freeAddressFrom qubits tries n) := by
    intro qubits tries
    induction tries with
    | zero => exact fun n => .pure _
    | succ tries ih => exact fun n => (isTaken n qubits).bind fun _ => .ite (ih _) (.pure _)
  exact .bind .get fun _ => hTries _ _ _

theorem activate (q : Nat) : Calm (activate q) := by
  refine .bind (.bind .get fun _ => .pure _) fun _ =>
    .bind (.modify fun _ => rfl) fun _ => ?_
  intro s
  rw [effect_get_bind]
  split <;> exact rfl

theorem createQubit (info : PairInfo) (address : Option Int) :
    Calm (createQubit false info address) := by
  have hNew : ∀ id : Int, Calm (do
      let q ← newQubit ⟨.fixed id, false, info, none⟩
      Session.activate q
      return q : SessionM Nat) := fun id =>
    .bind (fun _ => rfl) fun q => (activate q).bind fun _ => .pure _
  cases address with
  | some id => exact .bind (.pure id) hNew
  | none => exact freeAddress.bind hNew

theorem currentLine : Calm currentLine := by
  refine Calm.get.bind fun s => ?_
  split
  · exact .pure _
  · exact .bind (.lift _) fun _ => .pure _

theorem initValues (values : List Value) : Calm (initValues values) := by
  induction values with
  | nil => exact .pure _
  | cons v rest ih =>
    refine .bind ?_ fun x => ?_
    · unfold initValue?
      split
      · exact .pure _
      · exact .bind (operandOf _) fun _ => .pure _
      · exact .ite (.bind (operandOf _) fun _ => .pure _) (.pure _)
    · split
      · exact ih.bind fun _ => .pure _
      · exact .throw _

theorem newArray (length : Value) (init : Option (List Value)) : Calm (newArray length init) := by
  have hMade : ∀ (a : HostArray), Calm (do
      modify fun s => { s with allocation := s.allocation.returnArray a }
        return a : SessionM HostArray) := fun a =>
    .bind (.modify fun _ => rfl) fun _ => .pure _
  refine .replace (fun _ => rfl) fun s => .bind currentLine fun _ =>
    .bind ?_ fun values => ?_
  · cases init with
    | none => exact .pure _
    | some values => exact (initValues values).bind fun _ => .pure _
  · cases values with
    | some values =>
      exact .ite ((valueText _).bind fun _ => .bind (.throw _) fun _ => hMade _) (hMade _)
    | none =>
      cases length with
      | _ => exact .ite ((valueText _).bind fun _ => .bind (.throw _) fun _ => hMade _) (hMade _)

---- Pairs

theorem rangeArguments (parts : List Value) : Calm (rangeArguments parts) := by
  fun_induction Session.rangeArguments parts with
  | case1 => exact .pure _
  | case2 _ ih => exact ih
  | case3 _ _ ih => exact ih.bind fun _ => .pure _
  | case4 _ _ _ _ _ _ ih => exact ih.bind fun _ => .pure _
  | case5 => exact .throw _

theorem sliceFutures (a : HostArray) (parts : List Value) : Calm (sliceFutures a parts) := by
  have hPlaces : ∀ places : List Int, Calm (places.mapM fun i => entryFuture a (.int i)) :=
    Calm.mapM fun _ => newFuture _
  refine (rangeArguments parts).bind fun _ => ?_
  split
  · exact .bind (.lift _) hPlaces
  · exact .bind (.lift _) hPlaces
  · exact .bind (.lift _) hPlaces
  · exact .bind (.throw _) hPlaces

theorem pairInfos (number : Int) (results : HostArray) : Calm (pairInfos number results) :=
  .mapM (fun _ => .bind (sliceFutures _ _) fun _ => .pure _) _

theorem addressesOf (qubits : List Nat) : Calm (addressesOf qubits) :=
  .mapM (fun _ => .bind (.bind .get fun _ => .pure _) fun _ => .pure _) _

theorem keepResults (request : PairRequest) (results : HostArray) :
    Calm (keepResults request results) :=
  .bind (.lift _) fun _ => .mapM (fun _ =>
    (newFuture _).bind fun _ => (newFuture _).bind fun _ => (newFuture _).bind fun _ =>
      (newFuture _).bind fun _ => .pure _) _

end Calm

theorem checkRequest_ok (hEffect : effect (checkRequest kind request hasRoutine) s = (.ok a, t)) :
    t = s := by
  rcases of_bind_ok hEffect with ⟨_, _, hFirst, hSecond⟩
  cases (effect_lift_ok hFirst).2
  split at hSecond
  · exact (effect_lift_ok hSecond).2
  · cases hSecond
    rfl

theorem newArray_address {length : Value} {init : Option (List Value)} {array : HostArray}
    (hEffect : effect (newArray length init) s = (.ok array, t)) :
    array.address = s.allocation.newAddress.1 := by
  rw [newArray, effect_get_bind] at hEffect
  rcases of_binds_ok hEffect with ⟨_, _, _, _, _, _, hLater⟩
  rcases of_bind_ok hLater with ⟨values, _, _, hLater⟩
  let made (a : HostArray) : SessionM HostArray :=
    (modify fun s => { s with allocation := s.allocation.returnArray a }) >>= fun _ => pure a
  have hChecked : ∀ (n : Int) (words : SessionM String) (a : HostArray) u, effect (if n ≤ 0 then
        words >>= fun w => throw (.session (.badLength w)) >>= fun (_ : Unit) => made a
      else made a) u = (.ok array, t) → array.address = a.address := by
    intro n words a u hMake
    split at hMake
    · rcases of_bind_ok hMake with ⟨_, _, _, ⟨⟩⟩
    · cases hMake
      rfl
  cases values with
  | some values => exact hChecked _ _ _ _ hLater
  | none =>
    cases length with
    | _ => exact hChecked _ _ _ _ hLater

-- The qubits for pairs, if all qubits can be entangled.
theorem pairQubits_ok {results : HostArray} {qubits : List Nat} (hGeneric : s.hardware.nv = false)
    (hEffect : effect (pairQubits request results) s = (.ok qubits, t)) :
    t.pending = s.pending ∧ t.hardware = s.hardware := by
  rcases of_bind_ok hEffect with ⟨infos, s₁, hInfos, hLater⟩
  rcases (Calm.pairInfos request.number results).kept hInfos with ⟨hPending, hHardware⟩
  rw [effect_get_bind, if_neg (by rw [hHardware, hGeneric]; exact Bool.false_ne_true)] at hLater
  have hNamed : ∀ address, Calm (infos.mapM fun info => createQubit false info address) :=
    fun address => .mapM (fun info => .createQubit info address) infos
  have hRest : t.pending = s₁.pending ∧ t.hardware = s₁.hardware := by
    split at hLater
    · exact (Calm.freeAddress.bind fun address => .bind (.pure (some address)) hNamed).kept hLater
    · exact (Calm.bind (.pure none) hNamed).kept hLater
  exact ⟨hRest.1.trans hPending, hRest.2.trans hHardware⟩

end QuantumNode.Session
