import QuantumNode.Proofs.Flow.Layout

/-
  Building a flow in a session adds a layout of it behind what is pending.
-/

open List

namespace QuantumNode.Flow
open Draft Session Assembly
variable {asBlock : Bool} {body : List Item} {r : Reg} {rounds : Rounds} {u : Session}
  {test : Test} {a : Unit}

variable {s t : Session} {scope : List Reg} {f : Flow}

-- Some more registers are in use, but not more than a number of them.
def Grows (n : Nat) (s t : Session) : Prop :=
  t.allocation.registers.length ≤ s.allocation.registers.length + n

theorem Grows.trans (hFirst : Grows m s t) (hThen : Grows n t u) : Grows (m + n) s u := by
  unfold Grows at *
  omega

-- All operations of a flow take no more registers than the program holds from then on.
def AllCounted : Flow → Prop
  | done => True
  | act x _ kept rest => (∀ s a t, effect x s = (.ok a, t) → Grows kept.length s t) ∧ rest.AllCounted
  | when _ _ body rest => body.AllCounted ∧ rest.AllCounted
  | loop _ _ body rest => body.AllCounted ∧ rest.AllCounted

-- How many registers a flow takes and does not give back.
def growth : Flow → Nat
  | done => 0
  | act _ _ kept rest => kept.length + rest.growth
  | when _ test body rest => body.growth + test.strays + rest.growth
  | loop _ _ body rest => body.growth + rest.growth

theorem allCounted_append (hCounted : (f.append g).AllCounted) :
    f.AllCounted ∧ g.AllCounted ∧ (f.append g).growth = f.growth + g.growth := by
  induction f with
  | done => exact ⟨trivial, hCounted, (Nat.zero_add _).symm⟩
  | act _ _ _ rest ih | when _ _ _ rest _ ih | loop _ _ _ rest _ ih =>
    rcases ih hCounted.2 with ⟨hRest, hThen, hSum⟩
    exact ⟨⟨hCounted.1, hRest⟩, hThen, by simp [append, growth, hSum, Nat.add_assoc]⟩

-- What building a flow does: its items are added, the registers that it takes are in use, and
-- others are in use again.
structure Built (scope : List Reg) (f : Flow) (s t : Session) : Prop where
  code : ∃ code, Adds code s t ∧ Layout scope f code
  taken : f.taken ⊆ t.allocation.registers
  grows : f.AllCounted → Grows f.growth s t

theorem Built.frame (hBuilt : Built scope f s t) : Frame s t := by
  rcases hBuilt.code with ⟨_, hAdds, _⟩
  exact hAdds.toFrame

theorem Built.andThen (hFirst : Built scope f s t) (hScope : scope ⊆ s.allocation.registers)
    (hThen : f.taken ++ scope ⊆ t.allocation.registers → Built (f.taken ++ scope) g t u) :
    Built scope (f.append g) s u := by
  have hInScope : f.taken ++ scope ⊆ t.allocation.registers :=
    append_subset.mpr ⟨hFirst.taken, fun r hr => hFirst.frame.registers (hScope hr)⟩
  have hLater := hThen hInScope
  rcases hFirst.code with ⟨_, hAdds, hLays⟩
  rcases hLater.code with ⟨_, hAdds', hLays'⟩
  refine ⟨⟨_, hAdds.trans hAdds', hLays.append hLays'⟩, ?_, fun hCounted => ?_⟩
  · rw [taken_append]
    exact append_subset.mpr ⟨hLater.taken, fun r hr => hLater.frame.registers (hFirst.taken hr)⟩
  · rcases allCounted_append hCounted with ⟨hBefore, hBehind, hSum⟩
    rw [hSum]
    exact (hFirst.grows hBefore).trans (hLater.grows hBehind)

-- Behind what was pending before a block stand items for the block.
def Closes (scope : List Reg) (f : Flow) (before : List Item) (s t : Session) : Prop :=
  ∃ code, Adds (before.map Item.bare ++ code) s t ∧ Layout scope f code

theorem Layout.isSilent_iff (hLays : Layout scope f (body.map Item.bare)) :
    f.isSilent ↔ body.isEmpty := by
  rcases hLays with ⟨m, hLaid, hItems⟩
  rw [← hLaid.isSilent_iff, hItems, map_eq_nil_iff, List.isEmpty_iff]

-- What was pending before is put back, and nothing comes of the flow.
theorem closes_of_add {before : List Item} (hLaid : Laid scope f [])
    (hEffect : effect (add before) s = (.ok a, t)) : Closes scope f before s t ∧ Grows n s t := by
  have hAdds := adds_add hEffect
  rcases add_ok hEffect with ⟨line, rfl⟩
  rw [← append_nil (before.map Item.bare)] at hAdds
  exact ⟨⟨[], hAdds, [], hLaid, rfl⟩, Nat.le_add_right _ _⟩

theorem addCondition_ok (asBlock : Bool) {before : List Item} (hMet : test.isMet s)
    (hScope : scope ⊆ s.allocation.registers) (hBody : Layout scope f (body.map Item.bare))
    (hEffect : effect (addCondition before body test.op test.left test.right) s = (.ok a, t)) :
    Closes scope (.when asBlock test f .done) before s t ∧ Grows test.strays s t := by
  rw [addCondition] at hEffect
  split at hEffect
  · rename_i hEmpty
    exact closes_of_add (.skipWhen (hBody.isSilent_iff.mpr hEmpty) .done) hEffect
  · rename_i hSome
    rcases of_lift_bind_ok hEffect with ⟨flipped, hFlip, hLater⟩
    rcases of_bind_ok hLater with ⟨⟨start, finish⟩, s₂, hBranch, hAdd⟩
    rcases branchItems_ok hFlip hMet hScope hBranch with
      ⟨loads, os, exit, loaded, rfl, rfl, hFetched, hForks, hFrame, hPending, hLength⟩
    have hAdds := (adds_add hAdd).after hFrame hPending
    simp only [map_append, hFetched.map_bare, append_assoc] at hAdds
    rcases add_ok hAdd with ⟨_, rfl⟩
    have hLoud : ¬ f.isSilent := mt hBody.isSilent_iff.mp hSome
    rcases hBody with ⟨inner, hLaid, hInner⟩
    refine ⟨⟨_, hAdds, _, .when hLoud hFlip hForks hFetched hLaid .done, ?_⟩, Nat.le_of_eq hLength⟩
    simp only [unmarked_append, unmarked_marked, hInner, append_assoc]
    rfl

-- A session with other commands, labels and futures, as arrays that are made leave it.
def SameArrays (s t : Session) : Prop :=
  t = { s with pending := t.pending, labels := t.labels, futures := t.futures }

namespace SameArrays

-- What depends on nothing else is the same.
theorem view_eq {α : Type} {g : Session → α} (hSame : SameArrays s t)
    (hView : ∀ p l f, g { s with pending := p, labels := l, futures := f } = g s) : g t = g s := by
  rw [hSame]
  exact hView _ _ _

theorem allocation (hSame : SameArrays s t) : t.allocation = s.allocation :=
  hSame.view_eq fun _ _ _ => rfl

protected theorem trans (hFirst : SameArrays s t) (hThen : SameArrays t u) : SameArrays s u := by
  rw [hFirst] at hThen
  exact hThen

end SameArrays

theorem addLoop_same {before body : List Item} {range : LoopRange} {a : Unit}
    (hEffect : effect (addLoop before body range r) s = (.ok a, t)) : SameArrays s t := by
  rw [addLoop] at hEffect
  split at hEffect
  · rcases add_ok hEffect with ⟨line, rfl⟩
    rfl
  · rcases of_binds_ok hEffect with ⟨_, _, hEntry, _, _, hExit, hAdd⟩
    rcases freshLabel_ok hEntry with ⟨_, rfl⟩
    rcases freshLabel_ok hExit with ⟨_, rfl⟩
    rcases add_ok hAdd with ⟨line, rfl⟩
    rfl

theorem addLoop_ok {before : List Item} (hStandard : r ∈ Reg.ofBank .r) (hFresh : r ∉ scope)
    (hBody : Layout (r :: scope) f (body.map Item.bare))
    (hEffect : effect (addLoop before body rounds.range r) s = (.ok a, t)) :
    Closes scope (.loop rounds r f .done) before s t ∧ Grows 0 s t := by
  refine ⟨?_, ?_⟩
  · by_cases hEmpty : body = []
    · rw [addLoop, if_pos (by simpa using hEmpty)] at hEffect
      have hSilent := hBody.isSilent_iff.mpr (by simpa using hEmpty)
      exact (closes_of_add (n := 0) (.skipLoop hSilent .done) hEffect).1
    · rcases addLoop_adds hEmpty hEffect with ⟨labels, hAdds⟩
      have hLoud : ¬ f.isSilent := mt hBody.isSilent_iff.mp (by simpa using hEmpty)
      rcases hBody with ⟨inner, hLaid, hInner⟩
      have hWhole : Laid scope (.loop rounds r f .done)
          (marked false (loopStart labels r rounds.range) ++ _) :=
        .loop hLoud hStandard hFresh hLaid .done
      refine ⟨_, hAdds, _, hWhole, ?_⟩
      simp only [unmarked_append, unmarked_marked, hInner, loopItems, append_assoc]
      rfl
  · rw [Grows, (addLoop_same hEffect).allocation]
    exact Nat.le_refl _

-- A body that can be built wherever the registers in scope are in use.
def Builds (scope : List Reg) (f : Flow) : Prop :=
  ∀ s t a, scope ⊆ s.allocation.registers → effect f.build s = (.ok a, t) → Built scope f s t

-- If nothing is pending, only the items for the body are pending behind it.
theorem Builds.lays (hBuilds : Builds scope f) (hEffect : effect f.build s = (.ok a, t))
    (hScope : scope ⊆ s.allocation.registers) (hNothing : s.pending = []) :
    Frame s t ∧ Layout scope f (t.pending.map Item.bare) ∧ f.taken ⊆ t.allocation.registers ∧
      (f.AllCounted → Grows f.growth s t) := by
  rcases hBuilds s t a hScope hEffect with ⟨⟨_, hAdds, hLays⟩, hTaken, hGrows⟩
  rw [hAdds.pending, hNothing]
  exact ⟨hAdds.toFrame, hLays, hTaken, hGrows⟩

section
variable (hBody : Builds scope f) (hScope : scope ⊆ s.allocation.registers)
include hBody hScope
theorem guarded_ok (hEffect : effect (guarded asBlock test f.build) s = (.ok a, t)) :
    Built scope (.when asBlock test f .done) s t := by
  rw [guarded, effect_get_bind] at hEffect
  rcases of_lift_bind_ok hEffect with ⟨_, hMet, hGuarded⟩
  have hCloses : ∀ {u body}, Frame s u → u.pending = [] → Layout scope f (body.map Item.bare) →
      (f.AllCounted → Grows f.growth s u) →
      effect (addCondition s.pending body test.op test.left test.right) u = (.ok a, t) →
      Built scope (.when asBlock test f .done) s t := by
    intro u body hFrame hNothing hLays hGrows hAdd
    rcases addCondition_ok asBlock (Test.isMet_of_frame hFrame (demand_ok hMet))
      (fun r hr => hFrame.registers (hScope hr)) hLays hAdd with ⟨⟨_, hCloses, hWhole⟩, hStrays⟩
    exact ⟨⟨_, adds_of_closed hFrame hNothing hCloses, hWhole⟩, nil_subset _, fun hCounted =>
      (hGrows hCounted.1).trans hStrays⟩
  split at hGuarded
  · rcases ifBlock_parts hGuarded with ⟨_, _, hBuild, hClose⟩
    rcases hBody.lays hBuild hScope rfl with ⟨hInside, hLays, _, hGrows⟩
    rcases hClose hInside with ⟨_, hFrame, hAdd⟩
    exact hCloses hFrame rfl hLays hGrows hAdd
  · rcases of_bind_ok (takeAll_bind_ok hGuarded) with ⟨_, u, hBuild, hClose⟩
    rcases hBody.lays hBuild hScope rfl with ⟨hInside, hLays, _, hGrows⟩
    have hFrame := ((frame_withPending s []).trans hInside).trans (frame_withPending u [])
    exact hCloses hFrame rfl hLays hGrows (takeAll_bind_ok hClose)

end

---- Loops

theorem closes_loop {v : Session} {b : PUnit} (hStandard : r ∈ Reg.ofBank .r)
    (hUnused : r ∉ s.allocation.registers) (hScope : scope ⊆ s.allocation.registers)
    (hBody : Layout (r :: scope) f (body.map Item.bare)) (hFrame : Frame s u)
    (hHolds : f.taken ⊆ u.allocation.registers)
    (hGrows : f.AllCounted → Grows f.growth (withRegisters (s.allocation.registers ++ [r]) s) u)
    (hNothing : u.pending = [])
    (hAdd : effect (addLoop s.pending body rounds.range r) u = (.ok a, v))
    (hRelease : effect (release r) v = (.ok b, t)) : Built scope (.loop rounds r f .done) s t := by
  rcases addLoop_ok hStandard (fun hr => hUnused (hScope hr)) hBody hAdd with
    ⟨⟨_, hCloses, hWhole⟩, hSame⟩
  have hLess := release_length hRelease
  cases release_ok hRelease
  refine ⟨⟨_, (adds_of_closed hFrame hNothing hCloses).released hUnused, hWhole⟩,
    fun q hq => ?_, fun hCounted => ?_⟩
  have hLeft : q ∈ rounds.leaving r f.taken := hq
  unfold Rounds.leaving at hLeft
  split at hLeft
  · exact absurd hLeft not_mem_nil
  · rcases mem_filter.mp hLeft with ⟨hTaken, hOther⟩
    exact (mem_erase_of_ne (of_decide_eq_true hOther)).mpr (hCloses.registers (hHolds hTaken))
  · have hMore := (hGrows hCounted.1).trans hSame
    simp only [Grows, inUse, growth, withRegisters, length_append, length_singleton]
      at hMore hLess ⊢
    omega

def opened (r : Reg) (s : Session) : Session :=
  withFuture ⟨.register (some r), none⟩
    (withRegisters (s.allocation.registers ++ [r]) (withPending [] s))

theorem frame_opened (r : Reg) (s : Session) : Frame s (opened r s) :=
  ((frame_withPending s []).trans (frame_taken _ [r])).trans (frame_withFuture _ _)

theorem openLoop_ok {wanted : Option Reg} {loop : OpenLoop}
    (hWanted : ∀ r ∈ wanted, r ∈ Reg.ofBank .r ∧ r ∉ s.allocation.registers)
    (hEffect : effect (openLoop wanted) s = (.ok loop, t)) :
    ∃ r, r ∈ Reg.ofBank .r ∧ r ∉ s.allocation.registers ∧ (∀ q ∈ wanted, q = r) ∧
      loop = ⟨s.pending, r, true⟩ ∧
      t = withRegisters (s.allocation.registers ++ [r]) (withPending [] s) := by
  have hChosen : ∃ r, r ∈ Reg.ofBank .r ∧ r ∉ s.allocation.registers ∧ (∀ q ∈ wanted, q = r) ∧
      effect (openLoop (some r)) s = (.ok loop, t) := by
    cases wanted with
    | none =>
      rcases of_bind_ok hEffect with ⟨r, s₁, hFree, hLater⟩
      rcases freeRegister_ok hFree with ⟨hStandard, hUnused, rfl⟩
      exact ⟨r, hStandard, hUnused, by rintro q ⟨⟩, hLater⟩
    | some q => exact ⟨q, (hWanted q rfl).1, (hWanted q rfl).2, by rintro _ ⟨⟩; rfl, hEffect⟩
  rcases hChosen with ⟨r, hStandard, hUnused, hSame, hOpen⟩
  rw [openLoop, pure_bind] at hOpen
  have hLater := takeAll_bind_ok hOpen
  have hOwned : (!(withPending [] s).allocation.isUsed r) = true := by
    simpa [Allocation.isUsed, withPending] using hUnused
  rw [effect_get_bind] at hLater
  rw [if_pos hOwned] at hLater
  rcases of_bind_ok hLater with ⟨_, _, hOccupy, ⟨⟩⟩
  refine ⟨r, hStandard, hUnused, hSame, ?_, occupy_ok hOccupy⟩
  rw [hOwned]

theorem loopBody_parts {wanted : Option Reg} {range : LoopRange} {body : Nat → SessionM Unit}
    (hWanted : ∀ r ∈ wanted, r ∈ Reg.ofBank .r ∧ r ∉ s.allocation.registers)
    (hEffect : effect (loopBody range wanted body) s = (.ok a, t)) :
    ∃ r b u c v, r ∈ Reg.ofBank .r ∧ r ∉ s.allocation.registers ∧ (∀ q ∈ wanted, q = r) ∧
      effect (body s.futures.size) (opened r s) = (.ok b, u) ∧
      effect (addLoop s.pending u.pending range r) (withPending [] u) = (.ok c, v) ∧
      effect (release r) v = (.ok a, t) := by
  rcases of_bind_ok hEffect with ⟨loop, s₁, hOpen, hLater⟩
  rcases openLoop_ok hWanted hOpen with ⟨r, hStandard, hUnused, hSame, rfl, rfl⟩
  rcases of_bind_ok hLater with ⟨index, s₂, hFuture, hLater⟩
  rcases newFuture_ok hFuture with ⟨rfl, rfl⟩
  rcases of_bind_ok hLater with ⟨b, u, hBody, hClose⟩
  rw [closeLoop] at hClose
  have hClose := takeAll_bind_ok hClose
  rcases of_bind_ok hClose with ⟨c, v, hAdd, hRelease⟩
  exact ⟨r, b, u, c, v, hStandard, hUnused, hSame, hBody, hAdd, hRelease⟩

theorem expectRegister_ok {q : Reg} {id : Nat} (hPlace : s.place? id = some (.register (some q)))
    (hEffect : effect (expectRegister r id) s = (.ok a, t)) : q = r ∧ t = s := by
  rcases futureCell_of_place hPlace with ⟨known, hCell⟩
  rw [expectRegister, effect_bind, hCell] at hEffect
  rcases effect_lift_ok hEffect with ⟨hSame, rfl⟩
  exact ⟨of_decide_eq_true (demand_ok hSame), rfl⟩

theorem subset_taken (hScope : scope ⊆ s.allocation.registers) :
    r :: scope ⊆ s.allocation.registers ++ [r] := by
  intro p hp
  rcases mem_cons.mp hp with rfl | hOld
  · exact mem_append_right _ mem_cons_self
  · exact mem_append_left _ (hScope hOld)

section
variable (hBody : Builds (r :: scope) f) (hScope : scope ⊆ s.allocation.registers)
include hBody hScope
theorem loopBody_ok
    (hEffect : effect (loopBody rounds.range none fun index => do
        expectRegister r index
        f.build) s = (.ok a, t)) : Built scope (.loop rounds r f .done) s t := by
  rcases loopBody_parts (by rintro q ⟨⟩) hEffect with
    ⟨q, _, u, _, v, hStandard, hUnused, _, hInside, hAdd, hRelease⟩
  rcases of_bind_ok hInside with ⟨_, s₁, hExpect, hBuild⟩
  rcases expectRegister_ok (place?_withFuture _ _) hExpect with ⟨rfl, rfl⟩
  rcases hBody.lays hBuild (subset_taken hScope) rfl with ⟨hInside, hLays, hHolds, hGrows⟩
  exact closes_loop hStandard hUnused hScope hLays
    (((frame_opened q s).trans hInside).trans (frame_withPending _ [])) hHolds hGrows rfl
    hAdd hRelease

theorem loopBlock_ok
    (hEffect : effect (loopBlock rounds.range .none fun q => do
        demand (q = r) .unmet
        f.build) s = (.ok a, t)) : Built scope (.loop rounds r f .done) s t := by
  have hLater := takeAll_bind_ok hEffect
  rcases of_bind_ok hLater with ⟨q, s₂, hOpen, hLater⟩
  have hTakes : effect takeRegister (withPending [] s) = (.ok q, s₂) := effect_of_tryCatch (fun _ _ => ⟨_, _, rfl⟩) hOpen
  rcases takeRegister_ok hTakes with ⟨hStandard, hUnused, rfl⟩
  rcases effect_tryFinally_ok hLater with ⟨_, s₃, hInside, hClose⟩
  rcases of_lift_bind_ok hInside with ⟨_, hSame, hBuild⟩
  cases of_decide_eq_true (demand_ok hSame)
  rcases hBody.lays hBuild (subset_taken hScope) rfl with ⟨hInside, hLays, hHolds, hGrows⟩
  have hClose := takeAll_bind_ok hClose
  rcases of_bind_ok hClose with ⟨_, s₅, hAdd, hRelease⟩
  have hOpened := (frame_withPending s []).trans (frame_taken _ [r])
  exact closes_loop hStandard hUnused hScope hLays
    ((hOpened.trans hInside).trans (frame_withPending _ [])) hHolds hGrows rfl hAdd hRelease

theorem foreachBlock_ok
    (hEffect : effect (foreachBlock array fun q _ => do
        demand (q = r) .unmet
        f.build) s = (.ok a, t)) : Built scope (.loop (.entries array) r f .done) s t := by
  rcases of_bind_ok hEffect with ⟨id, s₁, ⟨⟩, hLater⟩
  rcases of_bind_ok hLater with ⟨⟨q, entry⟩, s₂, hOpen, hLater⟩
  have hOpen := takeAll_bind_ok hOpen
  rcases of_bind_ok hOpen with ⟨q', s₄, hTakes, hOpen⟩
  rcases takeRegister_ok hTakes with ⟨hStandard, hUnused, rfl⟩
  rcases of_bind_ok hOpen with ⟨_, s₅, hContext, hOpen⟩
  have hOpened : s₅ = withRegisters (s.allocation.registers ++ [q'])
      (withPending [] (withContext ⟨s.pending, some q'⟩ s)) := by
    cases hContext
    rfl
  subst hOpened
  rcases of_bind_ok hOpen with ⟨_, s₆, hFuture, ⟨⟩⟩
  rcases newFuture_ok hFuture with ⟨_, rfl⟩
  rcases effect_tryFinally_ok hLater with ⟨_, s₇, hInside, hClose⟩
  rcases of_lift_bind_ok hInside with ⟨_, hSame, hBuild⟩
  cases of_decide_eq_true (demand_ok hSame)
  rcases hBody.lays hBuild (subset_taken hScope) rfl with ⟨hInside, hLays, hHolds, hGrows⟩
  rcases of_binds_ok (takeAll_bind_ok hClose) with ⟨_, _, hContext, _, _, hAdd, hRelease⟩
  have hBehind := ((((frame_withPending (withContext ⟨s.pending, some r⟩ s) []).trans
    (frame_taken _ [r])).trans (frame_withFuture _ _)).trans hInside).trans
    (frame_withPending s₇ [])
  rcases closeContext_ok hBehind hContext with ⟨rfl, rfl, hFrame⟩
  exact closes_loop hStandard hUnused hScope hLays hFrame hHolds hGrows rfl hAdd hRelease

theorem repeated_ok (hEffect : effect (repeated r f.build rounds) s = (.ok a, t)) :
    Built scope (.loop rounds r f .done) s t := by
  cases rounds with
  | called start stop step => exact loopBody_ok hBody hScope hEffect
  | block start stop step => exact loopBlock_ok hBody hScope hEffect
  | entries array => exact foreachBlock_ok hBody hScope hEffect

end

-- All operations of a flow keep what there is.
def AllProper : Flow → Prop
  | done => True
  | act x _ _ rest => Proper x ∧ rest.AllProper
  | when _ _ body rest => body.AllProper ∧ rest.AllProper
  | loop _ _ body rest => body.AllProper ∧ rest.AllProper

theorem perform_ok (scope : List Reg) {x : SessionM Unit} {commands : List Command}
    {kept : List Reg} (hProper : Proper x)
    (hEffect : effect (perform x commands kept) s = (.ok a, t)) :
    Built scope (.act x commands kept .done) s t := by
  rw [perform, effect_get_bind] at hEffect
  rcases of_bind_ok hEffect with ⟨b, s₁, hAct, hLater⟩
  rw [effect_get_bind] at hLater
  rcases of_lift_bind_ok hLater with ⟨_, hAdded, hLater⟩
  rcases effect_lift_ok hLater with ⟨hKept, rfl⟩
  have hKeeps := hProper s b t hAct
  have hPending : t.pending.map Item.bare = s.pending.map Item.bare ++ barely commands := by
    have hBare := of_decide_eq_true (demand_ok hAdded)
    rw [map_drop, ← length_map (f := Item.bare)] at hBare
    rw [← prefix_iff_eq_append.mp hKeeps.pending, hBare]
    rfl
  refine ⟨⟨_, ⟨hKeeps.toFrame, hPending⟩, _, .act .done, by simp⟩, fun r hr => ?_,
    fun hCounted => hCounted.1 s b t hAct⟩
  have hUsed := all_eq_true.mp (demand_ok hKept) r hr
  simpa [Allocation.isUsed] using hUsed

-- Building a flow adds a layout of it, by induction on the flow. The registers in scope stay in
-- use, so that no block takes one of them.
theorem build_ok (hProper : f.AllProper) (hScope : scope ⊆ s.allocation.registers)
    (hEffect : effect f.build s = (.ok a, t)) : Built scope f s t := by
  induction f generalizing scope s t with
  | done =>
    cases hEffect
    exact ⟨⟨[], .refl s, [], .done, rfl⟩, nil_subset _, fun _ => Nat.le_refl _⟩
  | act x commands kept rest ih =>
    rcases of_bind_ok hEffect with ⟨_, s₁, hAct, hRest⟩
    have hFirst := perform_ok scope hProper.1 hAct
    exact hFirst.andThen hScope fun hInScope => ih hProper.2 hInScope hRest
  | when asBlock test body rest ihBody ihRest =>
    rcases of_bind_ok hEffect with ⟨_, s₁, hGuarded, hRest⟩
    have hBody : Builds scope body := fun s t a hScope hEffect => ihBody hProper.1 hScope hEffect
    have hFirst := guarded_ok hBody hScope hGuarded
    exact hFirst.andThen hScope fun hInScope => ihRest hProper.2 hInScope hRest
  | loop rounds r body rest ihBody ihRest =>
    rcases of_bind_ok hEffect with ⟨_, s₁, hLoop, hRest⟩
    have hBody : Builds (r :: scope) body := fun s t a hScope hEffect =>
      ihBody hProper.1 hScope hEffect
    have hFirst := repeated_ok hBody hScope hLoop
    exact hFirst.andThen hScope fun hInScope => ihRest hProper.2 hInScope hRest

end QuantumNode.Flow
