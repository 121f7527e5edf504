import QuantumNode.Proofs.Flow.Building
import QuantumNode.Proofs.Flow.Simulation

/-
  Whole programs: in front of a flow arrays are made, behind it arrays and registers are returned.
  The draft of a session in which a flow was built is a layout of the whole program. It names only
  registers that the program holds, if the flow does, and it has a direct meaning.
-/

open List

namespace QuantumNode.Flow
open Item PUnit
variable {a : HostArray} {arrays : List HostArray} {items : List Item} {r : Reg} {b : Unit}
open Draft Session Assembly
variable {s t : Session} {scope : List Reg} {f : Flow}

def adding (items : List Item) : Flow := .act (add items) (items.filterMap command?) [] .done

theorem lays_adding (scope : List Reg) (hCommands : ∀ item ∈ items, item.command?.isSome) :
    Layout scope (adding items) (items.map bare) := by
  have hBare : items.map bare = barely (items.filterMap Item.command?) := by
    induction items with
    | nil => rfl
    | cons item rest ih =>
      rw [forall_mem_cons] at hCommands
      cases item with
      | label name line => cases hCommands.1
      | command c => exact congrArg ((Item.command c).bare :: ·) (ih hCommands.2)
  exact ⟨_, .act .done, by rw [append_nil, unmarked_marked, hBare]⟩

---- Whole programs

def maker (a : HostArray) : Item := arrayCommand a .array [.int a.length, .addr a.address]

def filler (a : HostArray) (x : Operand) (r : Reg) : Item :=
  arrayCommand a .store [x, .entry a.address (.reg r)]

-- Make an array behind others. If all its entries start with the same value, the array is made in
-- front of the others and a loop behind them stores the value.
def making (r : Reg) (f : Flow) (a : HostArray) : Flow :=
  match a.init with
  | none => f.append (adding [maker a])
  | some values =>
    match uniform? values with
    | none => f.append (adding (maker a :: storeEach a 0 values))
    | some x =>
      (adding [maker a]).append
        (f.append (.loop (.called 0 values.length 1) r (adding [filler a x r]) .done))

def spare (s : Session) : Reg :=
  match s.allocation.inactive with
  | .ok r => r
  | .error _ => ⟨.r, 0⟩

def makingAll (s : Session) : Flow := s.allocation.returnedArrays.foldl (making (spare s)) .done

def returner (a : HostArray) : Item := arrayCommand a .retArr [.addr a.address]

-- Commands that return the arrays of a session, if they are to be returned.
def returnedArrays (s : Session) : List Item :=
  if s.returnsArrays then s.allocation.returnedArrays.map returner else []

def returnedRegisters (s : Session) : List Item :=
  s.allocation.returnedRegisters.map fun r => command .retReg [.reg r]

def complete (s : Session) (f : Flow) : Flow :=
  (makingAll s).append
    (f.append ((adding (returnedArrays s)).append (adding (returnedRegisters s))))

---- Arrays

theorem isSome_of_mem_storeEach (hItem : item ∈ storeEach a i values) : item.command?.isSome := by
  fun_induction storeEach a i values with
  | case1 => cases hItem
  | case2 _ _ ih => exact ih hItem
  | case3 _ _ _ ih =>
    rcases mem_cons.mp hItem with rfl | hLater
    · rfl
    · exact ih hLater

theorem taken_making (r : Reg) (a : HostArray) (hNothing : f.taken = []) :
    (making r f a).taken = [] := by
  unfold making
  repeat' split
  all_goals simp [taken_append, hNothing, adding, taken, Rounds.leaving]

-- The loop that stores a value in all entries; its register is free again behind it.
theorem fillLoop_ok {x : Operand} {n : Nat} (hScope : scope ⊆ s.allocation.registers)
    (hStandard : r ∈ Reg.ofBank .r) (hUnused : r ∉ s.allocation.registers)
    (hEffect : effect (loopBody (m := SessionM) (.upTo (.int n)) (some r) fun _ =>
        addOne (filler a x r)) s = (.ok b, t)) :
    Built scope (.loop (.called 0 n 1) r (adding [filler a x r]) .done) s t ∧ SameArrays s t := by
  have hWanted : ∀ q ∈ some r, q ∈ Reg.ofBank .r ∧ q ∉ s.allocation.registers := by
    rintro q ⟨⟩
    exact ⟨hStandard, hUnused⟩
  rcases loopBody_parts hWanted hEffect with ⟨q, _, u, _, v, _, _, hSame, hBody, hAdd, hRelease⟩
  cases hSame r rfl
  rcases addOne_ok hBody with ⟨line, rfl⟩
  have hLays : Layout (r :: scope) (adding [filler a x r]) ([withLine line (filler a x r)].map bare) :=
    lays_adding _ (by simp [filler, arrayCommand, command?])
  refine ⟨?_, ?_⟩
  · exact closes_loop hStandard hUnused hScope hLays
      (((frame_opened r s).trans (frame_withPending _ _)).trans (frame_withPending _ []))
      (nil_subset _) (fun _ => Nat.le_refl _) rfl hAdd hRelease
  · have hErased : (s.allocation.registers ++ [r]).erase r = s.allocation.registers := by
      rw [erase_append_right _ hUnused, erase_cons_head, append_nil]
    have hSame := addLoop_same hAdd
    rw [release_ok hRelease, hSame]
    simp [SameArrays, withPending, opened, withFuture, withRegisters, hErased]

theorem spare_eq (hEffect : effect freeRegister s = (.ok r, t)) : spare s = r := by
  rw [spare, (effect_lift_ok hEffect).1]

theorem initItems_ok (hScope : scope ⊆ s.allocation.registers) (hNothing : f.taken = [])
    (hLays : Layout scope f (s.pending.map bare)) (hInit : effect (initItems a) s = (.ok items, u))
    (hAdd : effect (add items) u = (.ok b, t)) :
    Layout scope (making (spare s) f a) (t.pending.map bare) ∧ SameArrays s t := by
  rw [(adds_add hAdd).pending]
  rcases add_ok hAdd with ⟨line, rfl⟩
  unfold initItems at hInit
  split at hInit
  · rename_i hUnset
    cases hInit
    simp only [making, hUnset]
    refine ⟨hLays.append (lays_adding _ ?_), rfl⟩
    simp [maker, arrayCommand, command?]
  · rename_i _ hValues
    split at hInit
    · rename_i hMixed
      cases hInit
      simp only [making, hValues, hMixed]
      refine ⟨hLays.append (lays_adding _ ?_), rfl⟩
      intro _ hItem
      rcases mem_cons.mp hItem with rfl | hStore
      · rfl
      · exact isSome_of_mem_storeEach hStore
    · rename_i x hUniform
      rcases of_bind_ok hInit with ⟨r, s₁, hFree, hInit⟩
      cases spare_eq hFree
      rcases freeRegister_ok hFree with ⟨hStandard, hUnused, rfl⟩
      rcases of_bind_ok hInit with ⟨_, _, hLoop, hInit⟩
      rcases fillLoop_ok hScope hStandard hUnused hLoop with ⟨hBuilt, hSame⟩
      rcases hBuilt.code with ⟨_, hAdds, hLoopLays⟩
      have hDone := takeAll_bind_ok hInit
      cases hDone
      simp only [making, hValues, hUniform]
      refine ⟨?_, hSame.trans rfl⟩
      have hMade : Layout scope (adding [maker a]) [(maker a).bare] :=
        lays_adding _ (by simp [maker, arrayCommand, command?])
      have hBehind := hLays.append (by rw [hNothing]; exact hLoopLays)
      rw [← hAdds.pending] at hBehind
      exact hMade.append hBehind

theorem makeArrays_ok {a : PUnit} (hScope : scope ⊆ s.allocation.registers)
    (hNothing : s.pending = [])
    (hEffect : effect (forIn arrays unit fun a _ => do
        add (← initItems a)
        pure (ForInStep.yield unit)) s = (.ok a, t)) :
    Layout scope (arrays.foldl (making (spare s)) .done) (t.pending.map bare) ∧
      (arrays.foldl (making (spare s)) .done).taken = [] ∧ SameArrays s t := by
  refine effect_forIn_ok (fun done u =>
      Layout scope (done.foldl (making (spare s)) .done) (u.pending.map bare) ∧
        (done.foldl (making (spare s)) .done).taken = [] ∧ SameArrays s u)
    ?_ ?_ hEffect
  · rintro done x u v _ ⟨hLays, hTaken, hSame⟩ hStep
    rcases of_binds_ok hStep with ⟨_, _, hInit, _, _, hAdd, ⟨⟩⟩
    have hSpare : spare u = spare s := by
      rw [spare, hSame.allocation]
      rfl
    rcases initItems_ok (by rw [hSame.allocation]; exact hScope) hTaken hLays hInit hAdd with
      ⟨hMade, hKept⟩
    rw [hSpare] at hMade
    rw [foldl_append]
    exact ⟨rfl, hMade, taken_making _ _ hTaken, hSame.trans hKept⟩
  · rw [hNothing]
    exact ⟨⟨[], .done, rfl⟩, rfl, rfl⟩

theorem returnArrays_ok {a : PUnit}
    (hEffect : effect (forIn arrays unit fun a _ => do
        addOne (returner a)
        pure (ForInStep.yield unit)) s = (.ok a, t)) :
    ∃ items, items.map bare = (arrays.map returner).map bare ∧
      t = withPending (s.pending ++ items) s := by
  refine effect_forIn_ok (fun done u =>
      ∃ items, items.map bare = (done.map returner).map bare ∧
        u = withPending (s.pending ++ items) s)
    ?_ ?_ hEffect
  · rintro done x u v _ ⟨items, hItems, rfl⟩ hStep
    rcases of_bind_ok hStep with ⟨_, _, hAdd, ⟨⟩⟩
    rcases addOne_ok hAdd with ⟨line, rfl⟩
    refine ⟨rfl, items ++ [withLine line (returner x)], ?_, ?_⟩
    · simp only [map_append, hItems]
      exact congrArg (_ ++ ·) (map_bare_withLine line [returner x])
    · simp [withPending]
  · exact ⟨[], rfl, by rw [append_nil]; rfl⟩

-- A draft: arrays are made, then what is pending follows, then arrays and registers are returned.
structure Drafted (s made : Session) (o : Option Draft) (t : Session) : Prop where
  made_ok : effect (forIn s.allocation.returnedArrays unit fun a _ => do
      add (← initItems a)
      pure (ForInStep.yield unit)) (withPending [] s) = (.ok ⟨⟩, made)
  items_eq : (o.elim [] Draft.items).map bare =
      (made.pending ++ (s.pending ++ (returnedArrays s ++ returnedRegisters s))).map bare
  isNone_iff : o = none ↔ o.elim [] Draft.items = []
  appId_eq : ∀ d ∈ o, d.appId = some s.appId
  same : SameArrays s t
  pending_eq : t.pending = []

theorem popDraft_drafted {o : Option Draft} (hEffect : effect popDraft s = (.ok o, t)) :
    ∃ made, Drafted s made o t := by
  rcases of_bind_ok hEffect with ⟨_, s₄, hArrays, hLater⟩
  have hArrays := takeAll_bind_ok hArrays
  rw [effect_get_bind] at hArrays
  rcases of_bind_ok hArrays with ⟨_, made, hMaking, hArrays⟩
  have hSame : SameArrays s made :=
    .trans (t := withPending [] s) rfl (makeArrays_ok (nil_subset _) rfl hMaking).2.2
  rcases of_bind_ok hArrays with ⟨_, s₃, hAdd, hArrays⟩
  rcases add_ok hAdd with ⟨line, rfl⟩
  have hReturning : ∃ items, items.map bare = (returnedArrays s).map bare ∧
      s₄ = withPending (made.pending ++ s.pending.map (withLine line) ++ items) made := by
    rw [effect_get_bind] at hArrays
    have hReturns : made.returnsArrays = s.returnsArrays := hSame.view_eq fun _ _ _ => rfl
    split at hArrays
    · rename_i hOn
      rcases of_bind_ok hArrays with ⟨_, s₅, hRounds, ⟨⟩⟩
      rw [returnedArrays, if_pos (hReturns.symm.trans hOn)]
      exact returnArrays_ok hRounds
    · rename_i hOff
      cases hArrays
      rw [returnedArrays, if_neg fun hOn => hOff (hReturns.trans hOn)]
      exact ⟨[], rfl, by rw [append_nil]⟩
  rcases hReturning with ⟨items, hItems, rfl⟩
  rcases of_bind_ok hLater with ⟨_, s₅, hRegisters, hLater⟩
  rcases add_ok hRegisters with ⟨line', rfl⟩
  have hPending : (made.pending ++ s.pending.map (withLine line) ++ items ++
      (returnedRegisters made).map (withLine line')).map bare =
      (made.pending ++ (s.pending ++ (returnedArrays s ++ returnedRegisters s))).map bare := by
    simp only [map_append, map_bare_withLine, hItems, returnedRegisters, hSame.allocation,
      List.append_assoc]
  rw [effect_get_bind] at hLater
  split at hLater
  · rename_i hEmpty
    cases hLater
    have hNothing := List.isEmpty_iff.mp hEmpty
    refine ⟨made, hMaking, ?_, by simp, by rintro d ⟨⟩, hSame.trans rfl, hNothing⟩
    rw [← hPending]
    exact (congrArg (List.map bare) hNothing).symm
  · rename_i hMore
    have hDone := takeAll_bind_ok hLater
    cases hDone
    refine ⟨made, hMaking, hPending, ⟨by rintro ⟨⟩, fun hNone => ?_⟩, ?_, hSame.trans rfl, rfl⟩
    · exact absurd (List.isEmpty_iff.mpr hNone) hMore
    · rintro d ⟨⟩
      exact hSame.view_eq (g := (some ·.appId)) fun _ _ _ => rfl

theorem popDraft_ok (hScope : scope ⊆ s.allocation.registers)
    (hLays : Layout scope f (s.pending.map bare))
    (hEffect : effect popDraft s = (.ok (some d), t)) :
    Lays scope (complete s f) d.items := by
  rcases popDraft_drafted hEffect with ⟨made, hDrafted⟩
  rcases makeArrays_ok (s := withPending [] s) hScope rfl hDrafted.made_ok with ⟨hMade, hTaken, _⟩
  have hItems := hDrafted.items_eq
  simp only [Option.elim, map_append] at hItems
  rw [Lays, hItems]
  refine hMade.append ?_
  rw [hTaken, nil_append]
  refine hLays.append (.append (lays_adding _ ?_) (lays_adding _ ?_))
  · intro item hItem
    unfold returnedArrays at hItem
    split at hItem
    · rcases mem_map.mp hItem with ⟨a, _, rfl⟩
      rfl
    · exact absurd hItem not_mem_nil
  · intro item hItem
    rcases mem_map.mp hItem with ⟨r, _, rfl⟩
    rfl

end QuantumNode.Flow

namespace QuantumNode
variable {values : List (Option Operand)} {commands : List Command} {loads : List Item}
  {loaded : List Reg} {terms : List Term} {x : Operand} {s : Session}

variable {c : Command} {a : HostArray} {o : Operand} {r : Reg}

-- Arrays whose entries start with numbers or with nothing.
def HostArray.StartsWithNumbers (a : HostArray) : Prop :=
  ∀ values ∈ a.init, ∀ x, some x ∈ values → x.number?.isSome

namespace Flow
open Draft Session Assembly
variable {loops scope : List Reg} {f g : Flow}

---- Whole programs

theorem scoped_append (hFirst : Scoped loops scope f) (hThen : Scoped loops (f.taken ++ scope) g) :
    Scoped loops scope (f.append g) := by
  induction f generalizing scope with
  | done => exact hThen
  | when asBlock test body rest _ ih => exact ⟨hFirst.1, hFirst.2.1, ih hFirst.2.2 hThen⟩
  | act x commands kept rest ih | loop rounds r body rest _ ih =>
    rw [taken, List.append_assoc] at hThen
    exact ⟨hFirst.1, hFirst.2.1, ih hFirst.2.2 hThen⟩

theorem Straight.mono (hWider : scope ⊆ wider) (hStraight : Straight loops scope c) :
    Straight loops wider c :=
  { hStraight with reads := fun r hr => (hStraight.reads r hr).mono hWider }

theorem scoped_adding {items : List Item}
    (hStraight : ∀ c, Item.command c ∈ items → Straight loops scope c) :
    Scoped loops scope (adding items) := by
  refine ⟨?_, by rintro r ⟨⟩, trivial⟩
  induction items generalizing scope with
  | nil => trivial
  | cons item rest ih =>
    have hRest : ∀ c, Item.command c ∈ rest → Straight loops scope c :=
      fun c hc => hStraight c (mem_cons_of_mem _ hc)
    cases item with
    | label name line => exact ih hRest
    | command c =>
      refine ⟨hStraight c mem_cons_self, ih fun c' hc' => ?_⟩
      exact (hRest c' hc').mono (subset_append_right _ _)

theorem straight_store (hNumber : x.number?.isSome) (hIndex : ∀ r, i = .reg r → Live scope r) :
    Straight loops scope (.plain .store [x, .entry a.address i] a.line) := by
  have hValue : x.reg? = none ∧ indexRegs x = [] ∧ label? x = none := by
    cases x with
    | imm v | int v | shown v words => exact ⟨rfl, rfl, rfl⟩
    | _ => cases hNumber
  refine ⟨rfl, ?_, by rintro j ⟨⟩, by rintro r ⟨⟩, ?_⟩
  · rintro o ho
    rcases mem_cons.mp ho with rfl | hEntry
    · exact hValue.2.2
    · cases mem_singleton.mp hEntry
      rfl
  · intro r hr
    have hSources : sourcesFrom (target? .store) 0 [x, .entry a.address i] =
        indexRegs (.entry a.address i) := by
      have hEntry : (Operand.entry a.address i).reg? = none := rfl
      simp [sourcesFrom, hValue.1, hValue.2.1, hEntry]
    have hMember : r ∈ indexRegs (.entry a.address i) := hSources ▸ hr
    cases i with
    | reg q =>
      rw [mem_singleton.mp hMember]
      exact hIndex q rfl
    | int v | shown v words => cases hMember

theorem straight_maker (hCommand : Item.command c ∈ [maker a]) : Straight loops scope c := by
  cases mem_singleton.mp hCommand
  refine ⟨rfl, ?_, by rintro j ⟨⟩, by rintro r ⟨⟩, by rintro r ⟨⟩⟩
  simp [Command.plain, Command.inputs, label?]

theorem straight_storeEach (hNumbers : ∀ x, some x ∈ values → x.number?.isSome)
    (hCommand : Item.command c ∈ storeEach a i values) : Straight loops scope c := by
  fun_induction storeEach a i values with
  | case1 => cases hCommand
  | case2 _ _ ih => exact ih (fun x hx => hNumbers x (mem_cons_of_mem _ hx)) hCommand
  | case3 _ x _ ih =>
    rcases mem_cons.mp hCommand with hHere | hLater
    · cases hHere
      exact straight_store (hNumbers x mem_cons_self) (by rintro r ⟨⟩)
    · exact ih (fun x hx => hNumbers x (mem_cons_of_mem _ hx)) hLater

theorem mem_of_uniform? (hUniform : uniform? values = some x) : some x ∈ values := by
  unfold uniform? at hUniform
  split at hUniform
  · split at hUniform
    · cases hUniform
      exact mem_cons_self
    · cases hUniform
  · cases hUniform

theorem scoped_making (r : Reg) (hScoped : Scoped [] scope f) (hNumbers : a.StartsWithNumbers) :
    Scoped [] scope (making r f a) := by
  unfold making
  split
  · exact scoped_append hScoped (scoped_adding fun c hc => straight_maker hc)
  · rename_i values hValues
    split
    · refine scoped_append hScoped (scoped_adding fun c hc => ?_)
      rcases mem_cons.mp hc with hHere | hLater
      · exact straight_maker (mem_singleton.mpr hHere)
      · exact straight_storeEach (hNumbers values hValues) hLater
    · rename_i x hUniform
      refine scoped_append (scoped_adding fun c hc => straight_maker hc) ?_
      refine scoped_append hScoped ⟨⟨values.length, ?_⟩, scoped_adding fun c hc => ?_, trivial⟩
      · simp [Rounds.index, Rounds.start, Rounds.stop, Rounds.step]
      · cases mem_singleton.mp hc
        refine straight_store (hNumbers values hValues x (mem_of_uniform? hUniform)) ?_
        rintro q ⟨⟩ _
        exact mem_cons_self

theorem scoped_makingAll (scope : List Reg)
    (hNumbers : ∀ a ∈ s.allocation.returnedArrays, a.StartsWithNumbers) :
    Scoped [] scope (makingAll s) ∧ (makingAll s).taken = [] := by
  have hAll : ∀ (arrays : List HostArray) (f : Flow), (∀ a ∈ arrays, a.StartsWithNumbers) →
      Scoped [] scope f ∧ f.taken = [] →
      Scoped [] scope (arrays.foldl (making (spare s)) f) ∧
        (arrays.foldl (making (spare s)) f).taken = [] := by
    intro arrays
    induction arrays with
    | nil => exact fun f _ hStart => hStart
    | cons a rest ih =>
      intro f hNumbers hStart
      refine ih _ (fun b hb => hNumbers b (mem_cons_of_mem _ hb)) ⟨?_, ?_⟩
      · exact scoped_making _ hStart.1 (hNumbers a mem_cons_self)
      · exact taken_making _ _ hStart.2
  exact hAll _ .done hNumbers ⟨trivial, rfl⟩

-- Behind the flow only registers are returned that it holds.
theorem scoped_complete (hScoped : Scoped [] [] f)
    (hNumbers : ∀ a ∈ s.allocation.returnedArrays, a.StartsWithNumbers)
    (hReturned : ∀ r ∈ s.allocation.returnedRegisters, Live f.taken r) :
    Scoped [] [] (complete s f) := by
  rcases scoped_makingAll [] hNumbers with ⟨hMaking, hTaken⟩
  refine scoped_append hMaking ?_
  rw [hTaken]
  refine scoped_append hScoped (scoped_append (scoped_adding fun c hc => ?_)
    (scoped_adding fun c hc => ?_))
  · unfold returnedArrays at hc
    split at hc
    · rcases mem_map.mp hc with ⟨a, _, ⟨⟩⟩
      refine ⟨rfl, ?_, by rintro j ⟨⟩, by rintro r ⟨⟩, by rintro r ⟨⟩⟩
      simp [Command.plain, Command.inputs, label?]
    · exact absurd hc not_mem_nil
  · rcases mem_map.mp hc with ⟨r, hr, ⟨⟩⟩
    refine ⟨rfl, ?_, by rintro j ⟨⟩, by rintro q ⟨⟩, ?_⟩
    · simp [Command.plain, Command.inputs, label?]
    · intro q hq
      cases mem_singleton.mp hq
      exact (hReturned _ hr).mono (by simp [adding])

---- Registers that give places in arrays

theorem mem_sourcesFrom (hOperand : o ∈ os) (hIndex : r ∈ indexRegs o) (place : Nat) :
    r ∈ sourcesFrom target place os := by
  induction os generalizing place with
  | nil => cases hOperand
  | cons first rest ih =>
    rcases mem_cons.mp hOperand with rfl | hLater
    · exact mem_append_left _ (mem_append_right _ hIndex)
    · exact mem_append_right _ (ih hLater _)

theorem Straight.indices (hStraight : Straight loops scope c) (hOperand : o ∈ c.inputs)
    (hIndex : r ∈ indexRegs o) : Live scope r :=
  hStraight.reads r (mem_sourcesFrom hOperand hIndex 0)

theorem AllStraight.indices (hStraight : AllStraight loops scope commands) (hCommand : c ∈ commands)
    (hOperand : o ∈ c.inputs) (hIndex : r ∈ indexRegs o) :
    Live ((commands.flatMap fun c => outputs c.op c.inputs) ++ scope) r := by
  induction commands generalizing scope with
  | nil => cases hCommand
  | cons first rest ih =>
    rcases mem_cons.mp hCommand with rfl | hLater
    · exact (hStraight.1.indices hOperand hIndex).mono (subset_append_right _ _)
    · refine (ih hStraight.2 hLater).mono fun q hq => ?_
      simp only [flatMap_cons, mem_append] at hq ⊢
      tauto

variable {whole : List Item} {m : List (Bool × Item)}

theorem named_of_written (hPart : barely commands ⊆ whole)
    (hWritten : r ∈ commands.flatMap fun c => outputs c.op c.inputs) : Named whole r := by
  rcases mem_flatMap.mp hWritten with ⟨c, hCommand, hOutput⟩
  exact named_of_mem_inputs (c := { c with line := none }) (hPart (mem_map_of_mem hCommand))
    (mem_of_mem_outputs hOutput)

theorem Laid.taken_named (hLaid : Laid scope f m) (hScoped : Scoped loops scope f)
    (hPart : unmarked m ⊆ whole) (hTaken : r ∈ f.taken) : Named whole r := by
  induction hLaid generalizing loops with
  | done => cases hTaken
  | act _ ih =>
    rw [unmarked_append, unmarked_marked] at hPart
    rcases append_subset.mp hPart with ⟨hHere, hLater⟩
    rcases mem_append.mp hTaken with hRest | hKept
    · exact ih hScoped.2.2 hLater hRest
    · exact named_of_written hHere (hScoped.2.1 r hKept)
  | skipWhen _ _ ih => exact ih hScoped.2.2 hPart hTaken
  | when _ _ _ _ _ _ _ ihRest =>
    simp only [unmarked_append, append_subset] at hPart
    exact ihRest hScoped.2.2 hPart.2.2.2 hTaken
  | skipLoop hSilent _ ih =>
    rw [taken, taken_of_isSilent hScoped.2.1 hSilent] at hTaken
    rcases mem_append.mp hTaken with hRest | hBody
    · exact ih hScoped.2.2 hPart hRest
    · simp [Rounds.leaving] at hBody
  | loop _ _ _ _ _ ihBody ihRest =>
    simp only [unmarked_append, append_subset] at hPart
    rcases mem_append.mp hTaken with hRest | hBody
    · exact ihRest hScoped.2.2 hPart.2.2.2 hRest
    · unfold Rounds.leaving at hBody
      split at hBody
      · cases hBody
      · exact ihBody hScoped.2.1 hPart.2.1 (mem_filter.mp hBody).1

theorem Fetched.indices (hFetched : Fetched scope terms loads os loaded)
    (hCommand : Item.command c ∈ loads) (hOperand : o ∈ c.inputs) (hIndex : r ∈ indexRegs o) :
    ∃ t ∈ terms, r ∈ t.registers := by
  induction hFetched with
  | nil => cases hCommand
  | number _ ih | register _ ih =>
    rcases ih hCommand with ⟨t, ht, hr⟩
    exact ⟨t, mem_cons_of_mem _ ht, hr⟩
  | @entry address spot q terms loads os loaded _ _ _ _ ih =>
    rcases mem_cons.mp hCommand with hHere | hLater
    · cases hHere
      refine ⟨_, mem_cons_self, ?_⟩
      simp only [Command.plain, Command.inputs, map_nil, nil_append, mem_cons, not_mem_nil, or_false] at hOperand
      rcases hOperand with rfl | rfl
      · cases hIndex
      · cases spot with
        | number i => cases hIndex
        | register p => exact hIndex
    · rcases ih hLater with ⟨t, ht, hr⟩
      exact ⟨t, mem_cons_of_mem _ ht, hr⟩

theorem around_no_indices {labels : LoopLabels} {rounds : Rounds}
    (hCommand : Item.command c ∈ loopStart labels r rounds.range ++ loopEnd labels r rounds.range)
    (hOperand : o ∈ c.inputs) : indexRegs o = [] := by
  simp only [loopStart, loopEnd, command, Command.plain, Rounds.range, cons_append, nil_append,
    mem_cons, Item.command.injEq, reduceCtorEq, false_or, not_mem_nil, or_false] at hCommand
  rcases hCommand with rfl | rfl | rfl | rfl <;>
    simp only [Command.inputs, map_nil, nil_append, mem_cons, not_mem_nil, or_false] at hOperand
  · rcases hOperand with rfl | rfl <;> rfl
  · rcases hOperand with rfl | rfl | rfl <;> rfl
  · rcases hOperand with rfl | rfl | rfl <;> rfl
  · rw [hOperand]
    rfl

-- Registers that give places in arrays are also operands of some command: those of loops are set,
-- those that the program took were written to.
theorem Laid.indices (hLaid : Laid scope f m) (hScoped : Scoped loops scope f)
    (hPart : unmarked m ⊆ whole) (hNamed : ∀ r ∈ scope, Named whole r)
    (hCommand : Item.command c ∈ unmarked m) (hOperand : o ∈ c.inputs) (hIndex : r ∈ indexRegs o) :
    Named whole r := by
  induction hLaid generalizing loops with
  | done => cases hCommand
  | @act scope kept x commands rest m _ ih =>
    rw [unmarked_append, unmarked_marked] at hPart hCommand
    rcases append_subset.mp hPart with ⟨hHere, hLater⟩
    have hWritten : ∀ q ∈ commands.flatMap fun c => outputs c.op c.inputs, Named whole q :=
      fun q hq => named_of_written hHere hq
    rcases mem_append.mp hCommand with hAct | hRest
    · rcases mem_map.mp hAct with ⟨c', hMember, ⟨⟩⟩
      intro hBank
      rcases mem_append.mp (hScoped.1.indices hMember hOperand hIndex hBank) with hOutput | hScope
      · exact hWritten r hOutput hBank
      · exact hNamed r hScope hBank
    · exact ih hScoped.2.2 hLater
        (forall_mem_append.mpr ⟨fun q hq => hWritten q (hScoped.2.1 q hq), hNamed⟩) hRest
  | skipWhen _ _ ih => exact ih hScoped.2.2 hPart hNamed hCommand
  | when _ _ _ hFetched _ _ ihBody ihRest =>
    simp only [unmarked_append, unmarked_marked, append_subset] at hPart
    simp only [unmarked_append, unmarked_marked, mem_append, mem_singleton] at hCommand
    rcases hCommand with (hLoad | hBranch) | hBody | hLabel | hRest
    · rcases hFetched.indices hLoad hOperand hIndex with ⟨t, ht, hr⟩
      exact fun hBank => hNamed r (hScoped.1 t ht r hr hBank) hBank
    · cases hBranch
      simp only [Command.plain, Command.inputs, map_nil, nil_append, mem_append, mem_singleton] at hOperand
      rcases hOperand with hCompared | rfl
      · rw [(hFetched.bare o hCompared).2] at hIndex
        cases hIndex
      · cases hIndex
    · exact ihBody hScoped.2.1 hPart.2.1 hNamed hBody
    · cases hLabel
    · exact ihRest hScoped.2.2 hPart.2.2.2 hNamed hRest
  | skipLoop hSilent _ ih =>
    refine ih hScoped.2.2 hPart (fun q hq => ?_) hCommand
    rw [taken_of_isSilent hScoped.2.1 hSilent] at hq
    exact hNamed q (by simpa [Rounds.leaving] using hq)
  | @loop scope rounds q body rest labels inner m _ _ _ hInside _ ihBody ihRest =>
    simp only [unmarked_append, unmarked_marked, append_subset] at hPart
    have hOwn : Named whole q :=
      named_of_mem_inputs (c := .plain .set [.reg q, .int rounds.start] none)
        (hPart.1 mem_cons_self) mem_cons_self
    simp only [unmarked_append, unmarked_marked, mem_append] at hCommand
    rcases hCommand with hOpening | hBody | hClosing | hRest
    · rw [around_no_indices (mem_append_left _ hOpening) hOperand] at hIndex
      cases hIndex
    · refine ihBody hScoped.2.1 hPart.2.1 (fun p hp => ?_) hBody
      rcases mem_cons.mp hp with rfl | hScope
      · exact hOwn
      · exact hNamed p hScope
    · rw [around_no_indices (mem_append_right _ hClosing) hOperand] at hIndex
      cases hIndex
    · refine ihRest hScoped.2.2 hPart.2.2.2 (fun p hp => ?_) hRest
      rcases mem_append.mp hp with hTaken | hScope
      · unfold Rounds.leaving at hTaken
        split at hTaken
        · cases hTaken
        · exact hInside.taken_named hScoped.2.1 hPart.2.1 (mem_filter.mp hTaken).1
      · exact hNamed p hScope

theorem Laid.allPlain (hLaid : Laid [] f m) (hScoped : Scoped [] [] f) :
    AllPlain (unmarked m) := by
  intro item hItem c hCommand
  have hHere : Item.command c ∈ unmarked m := by
    cases item with
    | label name line => cases hCommand
    | command c' =>
      cases hCommand
      exact hItem
  have hClear := hLaid.clear hScoped hHere
  exact ⟨hClear.writes, hClear.leads, fun o ho r hr =>
    hLaid.indices hScoped (fun _ h => h) (by rintro q ⟨⟩) hHere ho hr⟩

end Flow

end QuantumNode
