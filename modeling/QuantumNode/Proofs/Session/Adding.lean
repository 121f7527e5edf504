import QuantumNode.Proofs.Draft.Passing

/-
  The code that operations of a session add behind what is pending, for loops and conditions around
  the code of their bodies and for whole programs. It is left at its end only, it does not write to
  some registers, and if none of its commands acts on a qubit, it is not to be seen.
-/

open List

namespace QuantumNode
variable {operands : List Operand} {op : Op}
namespace Node
variable {α : Type}

-- An operation is mute if it reports nothing.
def Mute (x : NodeM α) : Prop := ∀ s, (effect x s).2.events = s.events

namespace Mute

protected theorem modify (hSame : ∀ s, (g s).events = s.events) : Mute (modify g) := hSame

theorem lenient : Lenient fun s t => t.events = s.events where
  refl _ := rfl
  trans hFirst hThen := hThen.trans hFirst
  aside hSame _ _ s := (congrArg Node.events (hSame s s.veiled) :)

theorem qubits : QubitTrait Mute where
  toLookQubits := lenient.qubits
  changes hSame _ := Mute.modify fun s => (congrArg Node.events (hSame s s.veiled) :)
  changesQubits hSame _ := Mute.modify fun s => (congrArg Node.events (hSame s s.veiled) :)

theorem registers : RegisterTrait Mute where
  toLookRegisters := lenient.registers
  changes := qubits.changes
  changesRegisters hSame _ := Mute.modify fun s => (congrArg Node.events (hSame s s.veiled) :)

end Mute

end Node

namespace Draft
open Node Flow
variable {whole code others : List Item} {sub : Nat} {app : Int} {kept : List Reg}

-- Whether a command that does not branch only computes, waits or returns.
def isMute : Op → List Operand → Bool
  | .set, [.reg _, _] | .load, [.reg _, .entry _ _] | .store, [_, .entry _ _]
  | .array, [_, .addr _] | .add, [.reg _, _, _] | .sub, [.reg _, _, _] | .recvEpr, [_, _, _, _]
  | .waitAll, [.slice _ _ _] | .retReg, [.reg _] | .retArr, [.addr _] => true
  | _, _ => false

theorem mute_ofOperand (app : Int) (o : Operand) : Mute (ofOperand app o) := by
  unfold ofOperand
  split
  · exact Mute.registers.getReg _ _
  · split
    · exact Mute.registers.pure _
    · exact Mute.registers.throw _

section
variable (hMute : isMute op operands = true)
include hMute
theorem mute_carryOut : Mute (carryOut sub op operands) := by
  have hQ := Mute.qubits
  have hR := Mute.registers
  unfold isMute at hMute
  split at hMute
  any_goals refine hQ.bind (hQ.appOf _) fun app => ?_
  -- set, load, store
  · exact hQ.bind (hQ.lift _) fun _ => hQ.answer (hR.setReg _ _ _)
  · refine hQ.bind (hR.readEntry app _ _) fun v => ?_
    split
    · exact hQ.answer (hQ.throw _)
    · exact hQ.answer (hR.setReg _ _ _)
  · refine hQ.bind (mute_ofOperand app _) fun v => ?_
    split
    · exact hQ.answer (hQ.throw _)
    · exact hQ.answer (hR.writeEntry _ _ _ _)
  -- array, add, sub
  · exact hQ.bind (hR.demandValue mute_ofOperand app _) fun _ => hQ.answer (hQ.createArray _ _ _)
  · exact hQ.answer (hR.arithmetic hR.ends mute_ofOperand (hR.setReg _ _) _ _ _ _)
  · exact hQ.answer (hR.arithmetic hR.ends mute_ofOperand (hR.setReg _ _) _ _ _ _)
  -- recv_epr, wait_all
  · exact hQ.answer (hR.recvFrom hR.ends mute_ofOperand _ _ _ _ _ _)
  · exact hQ.bind (hR.evalSlice app _ _) fun _ => hQ.answer (hQ.waitUntil (hQ.allDefined _ _ _))
  -- ret_reg, ret_arr
  · refine hQ.bind (hR.getReg app _) fun v => ?_
    split
    · exact hQ.answer (hQ.throw _)
    · exact hQ.answer (hR.returnReg _ _ _)
  · exact hQ.answer (hR.returnArray _ _)
  · cases hMute

-- Labels stand where it does not matter what stands there.
theorem isMute_valued : isMute op (operands.map (valued whole)) = true := by
  unfold isMute at hMute
  split at hMute
  all_goals first | rfl | cases hMute

theorem forks?_of_isMute : forks? op os = none := by
  unfold isMute at hMute
  split at hMute
  all_goals first | rfl | cases hMute

end

---- Code beside other code

-- Code that is left at its end only, writes to none of some registers and, if that is asked for,
-- only branches, computes, waits or returns.
structure Aside (kept : List Reg) (unseen : Prop) (code : List Item) : Prop where
  contained : Contained code
  spares : ∀ c, Item.command c ∈ code → ∀ r ∈ kept, r ∉ outputs c.op c.inputs
  silent : unseen → ∀ c, Item.command c ∈ code →
      isMute c.op c.inputs = true ∨ (forks? c.op c.inputs).isSome

namespace Aside
variable {unseen : Prop}

-- It is a matter of each command.
theorem of_commands (hEach : ∀ c, Item.command c ∈ code →
      (∀ fork ∈ forks? c.op c.inputs, ∃ name, fork.2 = .label name ∧ .label name none ∈ code) ∧
        (∀ r ∈ kept, r ∉ outputs c.op c.inputs) ∧
        (unseen → isMute c.op c.inputs = true ∨ (forks? c.op c.inputs).isSome)) :
    Aside kept unseen code :=
  ⟨fun c hc => (hEach c hc).1, fun c hc => (hEach c hc).2.1, fun hUnseen c hc =>
    (hEach c hc).2.2 hUnseen⟩

protected theorem nil : Aside kept unseen [] := .of_commands (by rintro c ⟨⟩)

protected theorem append (hFirst : Aside kept unseen code) (hThen : Aside kept unseen others) :
    Aside kept unseen (code ++ others) := by
  refine .of_commands fun c hCommand => ⟨hFirst.contained.append hThen.contained c hCommand, ?_⟩
  rcases mem_append.mp hCommand with hHere | hLater
  · exact ⟨hFirst.spares c hHere, fun hUnseen => hFirst.silent hUnseen c hHere⟩
  · exact ⟨hThen.spares c hLater, fun hUnseen => hThen.silent hUnseen c hLater⟩

theorem mono {asked : Prop} (hAside : Aside kept unseen code) (hFewer : fewer ⊆ kept)
    (hAsked : asked → unseen) : Aside fewer asked code :=
  ⟨hAside.contained, fun c hCommand r hr => hAside.spares c hCommand r (hFewer hr),
    fun hAskedFor => hAside.silent (hAsked hAskedFor)⟩

theorem straight (hOnward : forks? c.op c.inputs = none)
    (hSpares : ∀ r ∈ kept, r ∉ outputs c.op c.inputs) (hMute : unseen → isMute c.op c.inputs = true) :
    Aside kept unseen [.command c] := by
  refine .of_commands fun c' hCommand => ?_
  cases mem_singleton.mp hCommand
  exact ⟨by simp [hOnward], hSpares, fun hUnseen => .inl (hMute hUnseen)⟩

theorem mute (hMute : isMute c.op c.inputs = true) (hSpares : ∀ r ∈ kept, r ∉ outputs c.op c.inputs) :
    Aside kept unseen [.command c] :=
  straight (forks?_of_isMute hMute) hSpares fun _ => hMute

theorem each {α : Type} {f : α → Item} {xs : List α} (hEach : ∀ x, Aside kept unseen [f x]) :
    Aside kept unseen (xs.map f) := by
  induction xs with
  | nil => exact .nil
  | cons x rest ih => exact (hEach x).append ih

theorem loop {labels : LoopLabels} {r : Reg} {range : LoopRange} (hBody : Aside kept unseen code)
    (hOther : r ∉ kept) : Aside kept unseen (loopItems labels r range code) := by
  have hWrites : ∀ q ∈ kept, q ∉ [r] := by
    intro q hq hEqual
    exact hOther (mem_singleton.mp hEqual ▸ hq)
  have hParts : ∀ c, Item.command c ∈ loopItems labels r range code →
      c = .plain .set [.reg r, range.start] none ∨
      c = .plain .beq [.reg r, range.stop, .label labels.exit] none ∨
      Item.command c ∈ code ∨ c = .plain .add [.reg r, .reg r, range.step] none ∨
      c = .plain .jmp [.label labels.entry] none := by
    simp [loopItems, loopStart, loopEnd, command]
  refine .of_commands fun c hCommand => ?_
  rcases hParts c hCommand with rfl | rfl | hInside | rfl | rfl
  · exact ⟨by rintro _ ⟨⟩, hWrites, fun _ => .inl rfl⟩
  · refine ⟨?_, fun _ _ => not_mem_nil, fun _ => .inr rfl⟩
    rintro _ ⟨⟩
    exact ⟨labels.exit, rfl, by simp [loopItems, loopEnd]⟩
  · refine ⟨fun fork hFork => ?_, hBody.spares c hInside, fun hUnseen => hBody.silent hUnseen c hInside⟩
    rcases hBody.contained c hInside fork hFork with ⟨name, hName, hLabel⟩
    exact ⟨name, hName, by simp [loopItems, hLabel]⟩
  · exact ⟨by rintro _ ⟨⟩, hWrites, fun _ => .inl rfl⟩
  · refine ⟨?_, fun _ _ => not_mem_nil, fun _ => .inr rfl⟩
    rintro _ ⟨⟩
    exact ⟨labels.entry, rfl, by simp [loopItems, loopStart]⟩

theorem skipped (hBody : Aside kept unseen code) (compared : List Operand)
    (hForks : forks? op (compared ++ [.label exit]) = some (compared, .label exit)) :
    Aside kept unseen (command op (compared ++ [.label exit]) :: (code ++ [.label exit none])) := by
  have hParts :
      ∀ c, Item.command c ∈ command op (compared ++ [.label exit]) :: (code ++ [.label exit none]) →
        c = .plain op (compared ++ [.label exit]) none ∨ Item.command c ∈ code := by
    simp [command]
  have hTarget : target? op = none := by
    unfold forks? at hForks
    split at hForks
    all_goals first | rfl | cases hForks
  refine .of_commands fun c hCommand => ?_
  rcases hParts c hCommand with rfl | hInside
  · refine ⟨fun fork hFork => ?_, fun q _ => ?_, fun _ => .inr (Option.isSome_iff_exists.mpr ⟨_, hForks⟩)⟩
    · cases hForks.symm.trans hFork
      exact ⟨exit, rfl, by simp⟩
    · simp only [outputs, Command.plain, hTarget]
      exact not_mem_nil
  · refine ⟨fun fork hFork => ?_, hBody.spares c hInside, fun hUnseen => hBody.silent hUnseen c hInside⟩
    rcases hBody.contained c hInside fork hFork with ⟨name, hName, hLabel⟩
    exact ⟨name, hName, by simp [hLabel]⟩

end Aside

-- Such code does not come between the steps around it.
theorem Passes.aside (hFits : Fits whole) (hResolves : Resolves whole) {unseen : Prop}
    (hAside : Aside kept unseen code) :
    Passes whole sub app code fun s u =>
      (unseen → u.events = s.events) ∧
        ∀ r ∈ kept, ∀ v, s.registerOf app r = some v → u.registerOf app r = some v := by
  refine Passes.contained hFits hResolves hAside.contained ?_ ?_ ?_
  · exact fun s => ⟨fun _ => rfl, fun _ _ _ hHolds => hHolds⟩
  · rintro s u v ⟨hEvents, hHolds⟩ ⟨hEvents', hHolds'⟩
    exact ⟨fun hUnseen => (hEvents' hUnseen).trans (hEvents hUnseen),
      fun r hr v hValue => hHolds' r hr v (hHolds r hr v hValue)⟩
  · intro c hCommand _ _ s u hMember hHosts hStep
    refine ⟨fun hUnseen => ?_, fun r hr v hValue => ?_⟩
    · cases hForks : forks? c.op c.inputs with
      | some fork => rw [(step_fork hForks hStep).1]
      | none =>
        rcases hAside.silent hUnseen c hCommand with hMute | hBranch
        · rcases step_straight hForks hStep with ⟨_, v, hCarry⟩
          have hMuted : Mute (carryOut sub c.op (c.inputs.map (valued whole))) :=
            mute_carryOut (isMute_valued hMute)
          have hEvents := hMuted s
          rw [hCarry] at hEvents
          exact hEvents
        · rw [hForks] at hBranch
          cases hBranch
    · exact holds_of_step hFits hMember (hAside.spares c hCommand r hr) hHosts hValue hStep

end Draft

end QuantumNode

namespace QuantumNode.Session
open Draft Flow Item
variable {items : List Item} {range : LoopRange} {id : Nat} {op : Op} {r : Reg} {v : Session}
  {a b : Unit}

variable {s t u : Session} {code : List Item} {kept : List Reg}

theorem adds_addOne (hEffect : effect (addOne item) s = (.ok a, t)) : Adds [item.bare] s t := by
  rcases addOne_ok hEffect with ⟨line, rfl⟩
  refine ⟨frame_withPending s _, ?_⟩
  simp [withPending, bare_withLine]

theorem adds_emit (hEffect : effect (emit op os) s = (.ok a, t)) : Adds [command op os] s t :=
  adds_addOne hEffect

theorem adds_takeRegister {f : Reg → SessionM α} {a : α}
    (hEffect : effect (takeRegister >>= f) s = (.ok a, t)) :
    ∃ r u, Adds [] s u ∧ r ∈ Reg.ofBank .r ∧ r ∉ s.allocation.registers ∧
      r ∈ u.allocation.registers ∧ effect (f r) u = (.ok a, t) := by
  rcases of_bind_ok hEffect with ⟨r, u, hTake, hRest⟩
  rcases takeRegister_ok hTake with ⟨hStandard, hUnused, rfl⟩
  exact ⟨r, _, .nothing (frame_taken s [r]) rfl, hStandard, hUnused,
    mem_append_right _ mem_cons_self, hRest⟩

theorem adds_newFuture (hEffect : effect (newFuture place) s = (.ok id, t)) :
    Adds [] s t ∧ t.place? id = some place := by
  rcases newFuture_ok hEffect with ⟨rfl, rfl⟩
  exact ⟨.nothing (frame_withFuture s _) rfl, place?_withFuture s _⟩

---- Loops

theorem pending_ne_nil (hNothing : s.pending = []) (hSome : code ≠ []) (hAdds : Adds code s t) :
    t.pending.map bare = code ∧ t.pending ≠ [] := by
  have hCode : t.pending.map bare = code := by
    rw [hAdds.pending, hNothing]
    rfl
  refine ⟨hCode, fun hNone => hSome ?_⟩
  rw [← hCode, hNone]
  rfl

theorem adds_around {s' : Session} (hFrame : Frame s s') (hNothing : s'.pending = [])
    (hSome : code ≠ []) (hInside : Adds code s' u)
    (hAdd : effect (addLoop s.pending u.pending range r) (withPending [] u) = (.ok b, v)) :
    ∃ labels, Adds (loopItems labels r range code) s v := by
  rcases pending_ne_nil hNothing hSome hInside with ⟨hCode, hItems⟩
  rcases addLoop_adds hItems hAdd with ⟨labels, hAdds⟩
  rw [hCode] at hAdds
  exact ⟨labels, adds_of_closed ((hFrame.trans hInside.toFrame).trans (frame_withPending u []))
    rfl hAdds⟩

theorem adds_loop {a : PUnit} (hUnused : r ∉ s.allocation.registers) (hSome : code ≠ [])
    (hInside : Adds code (opened r s) u)
    (hAdd : effect (addLoop s.pending u.pending range r) (withPending [] u) = (.ok b, v))
    (hRelease : effect (release r) v = (.ok a, t)) :
    ∃ labels, Adds (loopItems labels r range code) s t := by
  rcases adds_around (frame_opened r s) rfl hSome hInside hAdd with ⟨labels, hAdds⟩
  rw [release_ok hRelease]
  exact ⟨labels, hAdds.released hUnused⟩

-- A session in which a loop in a register that is in use is open.
def reopened (r : Reg) (s : Session) : Session :=
  withFuture ⟨.register (some r), none⟩ (withPending [] s)

theorem frame_reopened (r : Reg) (s : Session) : Frame s (reopened r s) :=
  (frame_withPending s []).trans (frame_withFuture _ _)

-- A loop in a register that stays in use.
theorem adds_loop_used {body : Nat → SessionM Unit} {P : List Item → Prop}
    (hUsed : r ∈ s.allocation.registers)
    (hBody : ∀ b u, effect (body s.futures.size) (reopened r s) = (.ok b, u) →
        ∃ code, code ≠ [] ∧ Adds code (reopened r s) u ∧ P code)
    (hEffect : effect (loopBody range (some r) body) s = (.ok a, t)) :
    ∃ labels code, Adds (loopItems labels r range code) s t ∧ P code := by
  rcases of_bind_ok hEffect with ⟨loop, s₁, hOpen, hLater⟩
  rw [openLoop, pure_bind] at hOpen
  have hOpen := takeAll_bind_ok hOpen
  have hOwned : ¬ (!(withPending [] s).allocation.isUsed r) = true := by
    simpa [Allocation.isUsed, withPending] using hUsed
  rw [effect_get_bind] at hOpen
  rw [if_neg hOwned] at hOpen
  cases hOpen
  rcases of_bind_ok hLater with ⟨index, s₂, hFuture, hLater⟩
  rcases newFuture_ok hFuture with ⟨rfl, rfl⟩
  rcases of_bind_ok hLater with ⟨b, u, hInside, hClose⟩
  rcases hBody b u hInside with ⟨code, hSome, hAdds, hHolds⟩
  rw [closeLoop] at hClose
  have hClose := takeAll_bind_ok hClose
  rcases of_bind_ok hClose with ⟨c, v, hAdd, hDone⟩
  rw [if_neg hOwned] at hDone
  cases hDone
  rcases adds_around (frame_reopened r s) rfl hSome hAdds hAdd with ⟨labels, hLoop⟩
  exact ⟨labels, code, hLoop, hHolds⟩

theorem adds_repeat (hEffect : effect (repeatCommand times op os) s = (.ok a, t)) :
    ∃ labels r, r ∉ s.allocation.registers ∧
      Adds (loopItems labels r (.upTo times) [command op os]) s t := by
  rcases loopBody_parts (by rintro q ⟨⟩) hEffect with
    ⟨r, _, u, _, v, _, hUnused, _, hBody, hAdd, hRelease⟩
  rcases adds_loop hUnused (by simp) (adds_emit hBody) hAdd hRelease with ⟨labels, hAdds⟩
  exact ⟨labels, r, hUnused, hAdds⟩

theorem branchItems_register {v : Int} {start finish : List Item} (hOp : op ≠ .bez ∧ op ≠ .bnz)
    (hPlace : s.place? id = some (.register (some r)))
    (hEffect : effect (branchItems op (.future id) (.int v)) s = (.ok (start, finish), t)) :
    ∃ exit, start = [command op [.reg r, .int v, .label exit]] ∧
      finish = [.label exit none] ∧ Frame s t ∧ t.pending = s.pending := by
  have hFirst : Term.isGivenBy s (.register r) (.future id) := by simp [Term.isGivenBy, hPlace]
  have hSecond : Term.isGivenBy s (.number v) (.int v) := by simp [Term.isGivenBy]
  rcases branchItems_double hOp hFirst hSecond (nil_subset _) hEffect with
    ⟨_, o, p, exit, _, rfl, rfl, hFetched, hFrame, hPending, _⟩
  cases hFetched with
  | register hRest =>
    cases hRest with
    | number hNil =>
      cases hNil
      exact ⟨exit, rfl, rfl, hFrame, hPending⟩

theorem adds_condition {P : List Item → Prop} (hFlip : op.flip = .ok flipped)
    (hOp : flipped ≠ .bez ∧ flipped ≠ .bnz) (hPlace : s.place? id = some (.register (some r)))
    (hBody : ∀ b u, effect body (guardedFrom s) = (.ok b, u) →
        ∃ code, code ≠ [] ∧ Adds code (guardedFrom s) u ∧ P code)
    (hEffect : effect (ifBlock op (.future id) (.int n) body) s = (.ok a, t)) :
    ∃ exit code,
      Adds (command flipped [.reg r, .int n, .label exit] :: (code ++ [.label exit none])) s t ∧
        P code := by
  rcases ifBlock_parts hEffect with ⟨b, u, hInside, hClose⟩
  rcases hBody b u hInside with ⟨code, hSome, hAdds, hHolds⟩
  rcases hClose hAdds.toFrame with ⟨_, hFrame, hCondition⟩
  rcases pending_ne_nil rfl hSome hAdds with ⟨hCode, hItems⟩
  rw [addCondition, if_neg (by simpa using hItems)] at hCondition
  rcases of_lift_bind_ok hCondition with ⟨flipped', hFlip', hCondition⟩
  cases hFlip.symm.trans hFlip'
  rcases of_bind_ok hCondition with ⟨⟨start, finish⟩, s₇, hBranch, hAdd⟩
  rcases branchItems_register hOp (hFrame.places id _ hPlace (by rintro ⟨⟩)) hBranch with
    ⟨exit, rfl, rfl, hBranched, hPending⟩
  have hClosed := (adds_add hAdd).after hBranched hPending
  refine ⟨exit, code, adds_of_closed hFrame rfl ?_, hHolds⟩
  simp only [map_append, List.append_assoc, hCode] at hClosed
  exact hClosed

-- An index that is in a register, or a future of one.
def IndexIn (s : Session) (r : Reg) (index : Value) : Prop :=
  index = .reg r ∨ ∃ id, index = .future id ∧ s.place? id = some (.register (some r))

theorem loadItems_ok (hPlace : s.place? id = some (.entry address index))
    (hIndex : IndexIn s q index) (hEffect : effect (loadItems r id) s = (.ok items, t)) :
    items = [command .load [.reg r, .entry address (.reg q)]] ∧ t = s := by
  rcases futureCell_of_place hPlace with ⟨_, hCell⟩
  rw [loadItems, accessFrom, effect_get_bind, accessWithin, effect_bind, hCell] at hEffect
  rcases hIndex with rfl | ⟨_, rfl, hInner⟩
  · cases hEffect
    exact ⟨rfl, rfl⟩
  · rcases futureCell_of_place hInner with ⟨_, hInnerCell⟩
    dsimp only at hEffect
    rw [effect_bind, hInnerCell] at hEffect
    cases hEffect
    exact ⟨rfl, rfl⟩

theorem aside_arrayCommand {a : HostArray} (hMute : isMute op os = true)
    (hWrites : outputs op os = []) : Aside kept True [(arrayCommand a op os).bare] := by
  refine .mute hMute fun r _ hOutput => ?_
  have hNothing : r ∈ outputs op os := hOutput
  rw [hWrites] at hNothing
  cases hNothing

theorem aside_storeEach (kept : List Reg) (a : HostArray) (i : Nat)
    (values : List (Option Operand)) : Aside kept True ((storeEach a i values).map bare) := by
  fun_induction storeEach a i values with
  | case1 => exact .nil
  | case2 _ _ ih => exact ih
  | case3 _ _ _ ih => exact .append (aside_arrayCommand rfl rfl) ih

-- The items for an array stand behind those for the arrays before it, or around them.
theorem aside_initItems {a : HostArray} (hKept : kept ⊆ s.allocation.registers)
    (hBefore : Aside kept True (s.pending.map bare))
    (hInit : effect (initItems a) s = (.ok items, u)) (hAdd : effect (add items) u = (.ok b, t)) :
    kept ⊆ t.allocation.registers ∧ Aside kept True (t.pending.map bare) := by
  have hAdded := adds_add hAdd
  rw [hAdded.pending]
  unfold initItems at hInit
  split at hInit
  · cases hInit
    exact ⟨Subset.trans hKept hAdded.registers, .append hBefore (aside_arrayCommand rfl rfl)⟩
  · split at hInit
    · cases hInit
      exact ⟨Subset.trans hKept hAdded.registers,
        .append hBefore (.append (aside_arrayCommand rfl rfl) (aside_storeEach _ _ _ _))⟩
    · rcases of_bind_ok hInit with ⟨r, s₁, hFree, hFilling⟩
      rcases freeRegister_ok hFree with ⟨hStandard, hUnused, rfl⟩
      rcases of_bind_ok hFilling with ⟨_, s₂, hLoop, hTaking⟩
      have hWanted : ∀ q ∈ some r, q ∈ Reg.ofBank .r ∧ q ∉ s₁.allocation.registers := by
        rintro q ⟨⟩
        exact ⟨hStandard, hUnused⟩
      rcases loopBody_parts hWanted hLoop with
        ⟨q, _, v, _, w, _, hFresh, _, hBody, hClose, hRelease⟩
      rcases adds_loop hFresh (by simp) (adds_addOne hBody) hClose hRelease with ⟨labels, hAdds⟩
      have hDone := takeAll_bind_ok hTaking
      cases hDone
      refine ⟨Subset.trans hKept (Subset.trans hAdds.registers hAdded.registers),
        .append .nil (.append (aside_arrayCommand rfl rfl) ?_)⟩
      rw [hAdds.pending]
      exact .append hBefore (.loop (aside_arrayCommand rfl rfl) fun hUsed => hFresh (hKept hUsed))

-- A program makes arrays, does what is pending and returns arrays and registers. What it does on
-- its own writes to no register in use.
theorem popDraft_parts {d : Draft} (hKept : kept ⊆ s.allocation.registers)
    (hEffect : effect popDraft s = (.ok (some d), t)) :
    ∃ front back, d.items.map bare = front ++ (s.pending.map bare ++ back) ∧
      Aside kept True front ∧ Aside kept True back := by
  rcases popDraft_drafted hEffect with ⟨made, hDrafted⟩
  have hMade : kept ⊆ made.allocation.registers ∧ Aside kept True (made.pending.map bare) := by
    refine effect_forIn_ok (fun _ u =>
      kept ⊆ u.allocation.registers ∧ Aside kept True (u.pending.map bare)) ?_
      ⟨hKept, .nil⟩ hDrafted.made_ok
    rintro _ x u v _ hBefore hStep
    rcases of_binds_ok hStep with ⟨items, _, hInit, _, _, hAdd, ⟨⟩⟩
    exact ⟨rfl, aside_initItems hBefore.1 hBefore.2 hInit hAdd⟩
  have hItems := hDrafted.items_eq
  rw [map_append, map_append] at hItems
  refine ⟨_, _, hItems, hMade.2, ?_⟩
  rw [map_append, returnedRegisters, map_map]
  refine .append ?_ (.each fun r => .mute rfl fun _ _ => not_mem_nil)
  unfold returnedArrays
  split
  · rw [map_map]
    exact .each fun a => aside_arrayCommand rfl rfl
  · exact .nil

end QuantumNode.Session
