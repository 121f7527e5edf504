import QuantumNode.Proofs.Node.Linked

/-
  Access to registers, arrays and shared memories on linked nodes, single lines of subroutines, and
  gates, which are reported and change nothing else.
-/

open List

namespace QuantumNode.Node.Linked
open Registers SimTo Table
variable {i j : Index} {s t : Node} {r : Reg}
variable {sub : Nat} {app : Int}
variable {V : View}

theorem sim_blind (hBlind : Blind x) : Sim (Linked sub app V) Eq x x := by
  intro s t hLinked
  have hRight : effect x t = ((effect x s).1, (effect x s).2.cover t.hidden) := by
    have hCovered := hBlind.covers s t.hidden
    rwa [← hLinked.visible] at hCovered
  have hLinkedAfter : Linked sub app V (effect x s).2 ((effect x s).2.cover t.hidden) := by
    refine ⟨rfl, ?_, ?_⟩
    · rw [hBlind.keeps s]
      exact hLinked.hosted
    · rw [hBlind.hidden_eq s]
      exact hLinked.hidden
  rw [hRight]
  generalize effect x s = outcome at hLinkedAfter
  rcases outcome with ⟨_ | a, _⟩ <;> exact ⟨rfl, hLinkedAfter⟩

theorem sim_appOf :
    Sim (Linked sub app V) (fun a b => a = app ∧ b = app) (appOf sub) (appOf sub) := by
  intro s t hLinked
  rw [effect_appOf hLinked.hosted, effect_appOf hLinked.hosted_right]
  exact ⟨⟨rfl, rfl⟩, hLinked⟩

theorem sim_forApp {β γ : Type} {Ψ : Node → Node → Prop} {R : β → γ → Prop} {f : Int → NodeM β}
    {g : Int → NodeM γ} (hSim : SimTo (Linked sub app V) Ψ R (f app) (g app)) :
    SimTo (Linked sub app V) Ψ R (appOf sub >>= f) (appOf sub >>= g) := by
  refine SimTo.bind sim_appOf fun a b hApp => ?_
  rw [hApp.1, hApp.2]
  exact hSim

---- Registers

theorem effect_getReg (hRegs : get? app s.registers = some regs) (r : Reg) :
    effect (getReg app r) s = (regs.get r, s) := by
  simp [getReg, regsOf, effect_bind, hRegs]

def withRegs (app : Int) (regs : Registers) (s : Node) : Node :=
  { s with registers := put app regs s.registers }

theorem effect_setReg (hRegs : get? app s.registers = some regs) (r : Reg) (v : Int) :
    effect (setReg app r v) s = match regs.set s.hardware r (some v) with
      | .ok regs => (.ok ⟨⟩, withRegs app regs s)
      | .error e => (.error e, s) := by
  simp only [setReg, regsOf, effect_bind, effect_get, hRegs, effect_pure]
  cases regs.set s.hardware r (some v) <;> rfl

theorem sim_getReg (hNamed : V.named r) :
    Sim (Linked sub app V) Eq (getReg app r) (getReg app r) := by
  intro s t hLinked
  rcases hLinked.hidden.own with ⟨_, _, hLeft, hRight, hAgree, _⟩
  rw [effect_getReg hLeft, effect_getReg hRight, get_eq, get_eq, hAgree r hNamed]
  cases checkPlace r <;> exact ⟨rfl, hLinked⟩

theorem effect_getReg_held (hLinked : Linked sub app V s t)
    (hPlace : checkPlace r = .ok ()) (hHeld : (r, v) ∈ V.held) :
    effect (getReg app r) t = (.ok (some v), t) := by
  rcases hLinked.hidden.own with ⟨_, _, _, hRight, _, hValues⟩
  rw [effect_getReg hRight, get_eq, hPlace, hValues _ hHeld]
  rfl

theorem sim_held (hPlace : checkPlace r = .ok ()) (hHeld : (r, v) ∈ V.held) :
    Sim (Linked sub app V) Eq (pure (some v)) (getReg app r) := by
  intro s t hLinked
  rw [effect_getReg_held hLinked hPlace hHeld]
  exact ⟨rfl, hLinked⟩

-- A register that is written on both sides agrees from then on, and it holds what was written.
theorem sim_setHeld (hKept : kept ⊆ V.held) (hFree : ∀ p ∈ kept, p.1 ≠ r) (v : Int) :
    SimTo (Linked sub app V) (Linked sub app ((V.writing [r]).holding ((r, v) :: kept))) Eq
      (setReg app r v) (setReg app r v) := by
  intro s t hLinked
  rcases hLinked.hidden.own with ⟨_, _, hLeft, hRight, hAgree, hValues⟩
  rw [effect_setReg hLeft, effect_setReg hRight, hLinked.hardware_eq, set_eq, set_eq]
  cases checkPlace r with
  | error e => exact ⟨rfl, hLinked⟩
  | ok _ =>
    cases Block.checkWidth s.hardware v with
    | error e => exact ⟨rfl, hLinked⟩
    | ok _ =>
      refine ⟨rfl, ⟨?_, hLinked.hosted, ?_⟩⟩
      · exact congrArg (withRegs app _) hLinked.visible
      · refine ⟨⟨_, _, get?_put_self app _ _, get?_put_self app _ _, ?_, ?_⟩,
          ?_, hLinked.hidden.bank, hLinked.hidden.off⟩
        · intro q hNamed
          by_cases hSame : q = r
          · subst hSame
            rw [value_put_self, value_put_self]
          · rw [value_put_of_ne hSame, value_put_of_ne hSame]
            rcases hNamed with hNamed | hWritten
            · exact hAgree q hNamed
            · exact absurd (mem_singleton.mp hWritten) hSame
        · intro p hp
          rcases mem_cons.mp hp with rfl | hOld
          · exact value_put_self _ _ _
          · rw [value_put_of_ne (hFree p hOld)]
            exact hValues p (hKept hOld)
        · intro a hOther
          change get? a (put app _ t.registers) = get? a (put app _ s.registers)
          rw [get?_put_of_ne hOther, get?_put_of_ne hOther]
          exact hLinked.hidden.others a hOther

theorem sim_setReg (hFree : ∀ p ∈ V.held, p.1 ≠ r) (v : Int) :
    SimTo (Linked sub app V) (Linked sub app (V.writing [r])) Eq
      (setReg app r v) (setReg app r v) := by
  refine (sim_setHeld (fun _ hp => hp) hFree v).relax fun s t hLinked => ?_
  exact hLinked.mono ⟨fun _ hr => hr, fun _ hr => hr, fun p hp => mem_cons_of_mem _ hp⟩

-- A register that is not named may be written on the second side; from then on it holds the value.
-- The value has to fit.
theorem hold (hLinked : Linked sub app V s t) (hPlace : checkPlace r = .ok ())
    (hUnnamed : ¬ V.named r) (hFree : ∀ p ∈ V.held, p.1 ≠ r) (v : Int) :
    match Block.checkWidth s.hardware v with
    | .ok _ =>
      ∃ t', effect (setReg app r v) t = (.ok ⟨⟩, t') ∧
        Linked sub app (V.holding (V.held ++ [(r, v)])) s t'
    | .error e => effect (setReg app r v) t = (.error e, t) := by
  rcases hLinked.hidden.own with ⟨_, _, hLeft, hRight, hAgree, hValues⟩
  rw [effect_setReg hRight, hLinked.hardware_eq, set_eq, hPlace]
  cases Block.checkWidth s.hardware v with
  | error e => rfl
  | ok _ =>
    refine ⟨_, rfl, ⟨?_, hLinked.hosted, ?_⟩⟩
    · exact congrArg (withRegs app _) hLinked.visible
    · refine ⟨⟨_, _, hLeft, get?_put_self app _ _, ?_, ?_⟩,
        ?_, hLinked.hidden.bank, hLinked.hidden.off⟩
      · intro q hNamed
        have hOther : q ≠ r := fun hSame => hUnnamed (hSame ▸ hNamed)
        rw [value_put_of_ne hOther]
        exact hAgree q hNamed
      · intro p hp
        rcases mem_append.mp hp with hOld | hNew
        · rw [value_put_of_ne (hFree p hOld)]
          exact hValues p hOld
        · rw [mem_singleton.mp hNew]
          exact value_put_self _ _ _
      · intro a hOther
        change get? a (put app _ t.registers) = _
        rw [get?_put_of_ne hOther]
        exact hLinked.hidden.others a hOther

---- Indices

-- Indices for the same place: a named register on both sides, a number on both sides, or a number
-- and a register that holds it.
inductive IndexMatch (V : View) : Index → Index → Prop
  | reg {r : Reg} : V.named r → IndexMatch V (.reg r) (.reg r)
  | held {i : Index} {v : Int} {r : Reg} : i = .int v ∨ (∃ words, i = .shown v words) →
      checkPlace r = .ok () →
      (r, v) ∈ V.held → IndexMatch V i (.reg r)

theorem sim_evalIndex (hMatch : IndexMatch V i j) :
    Sim (Linked sub app V) Eq (evalIndex app i) (evalIndex app j) := by
  cases hMatch with
  | reg hNamed =>
    refine SimTo.bind_eq (sim_getReg hNamed) fun v => ?_
    cases v with
    | none => exact SimTo.throw rfl
    | some v => exact SimTo.pure rfl
  | @held _ v r hValue hPlace hHeld =>
    have hConstant : evalIndex app i =
        pure (some v) >>= fun v => v.elim (throw (.node (.indexUndefined r.text))) pure := by
      rcases hValue with rfl | ⟨_, rfl⟩ <;> rfl
    rw [hConstant]
    refine SimTo.bind_eq (sim_held hPlace hHeld) fun v => ?_
    cases v with
    | none => exact SimTo.throw rfl
    | some v => exact SimTo.pure rfl

theorem sim_readEntry (hPlace : Sim (Linked sub app V) Eq (evalIndex app i) (evalIndex app j))
    (address : Int) :
    Sim (Linked sub app V) Eq (readEntry app address i) (readEntry app address j) :=
  SimTo.bind_eq hPlace fun _ => sim_blind (Blind.trait.readPlace _ _ _)

theorem sim_writeEntry (hPlace : Sim (Linked sub app V) Eq (evalIndex app i) (evalIndex app j))
    (address : Int) (v : Option Int) :
    Sim (Linked sub app V) Eq (writeEntry app address i v) (writeEntry app address j v) :=
  SimTo.bind_eq hPlace fun _ => sim_blind (Blind.trait.writePlace _ _ _ _)

theorem sim_evalSlice (hLow : Sim (Linked sub app V) Eq (evalIndex app lo) (evalIndex app lo'))
    (hHigh : Sim (Linked sub app V) Eq (evalIndex app hi) (evalIndex app hi')) :
    Sim (Linked sub app V) Eq (evalSlice app lo hi) (evalSlice app lo' hi') :=
  SimTo.bind_eq hLow fun _ => SimTo.bind_eq hHigh fun _ => SimTo.pure rfl

theorem sim_anyDefined (hLow : Sim (Linked sub app V) Eq (evalIndex app lo) (evalIndex app lo'))
    (hHigh : Sim (Linked sub app V) Eq (evalIndex app hi) (evalIndex app hi')) (address : Int) :
    Sim (Linked sub app V) Eq (anyDefined app address lo hi) (anyDefined app address lo' hi') := by
  refine SimTo.bind_eq (sim_evalSlice hLow hHigh) fun _ =>
    SimTo.bind_eq (sim_blind (Blind.trait.readSlice _ _ _)) fun values => ?_
  cases values with
  | none => exact SimTo.throw rfl
  | some values => exact SimTo.pure rfl

theorem sim_waitFor (hReady : Sim (Linked sub app V) Eq x y) (rounds : Nat) :
    Sim (Linked sub app V) Eq (waitFor x rounds) (waitFor y rounds) := by
  induction rounds with
  | zero => exact SimTo.throw rfl
  | succ rounds ih =>
    refine SimTo.bind_eq hReady fun ready => ?_
    cases ready with
    | true => exact SimTo.pure rfl
    | false => exact SimTo.bind_eq (sim_blind Blind.trait.awaitNetwork) fun _ => ih

theorem sim_waitUntil (hReady : Sim (Linked sub app V) Eq x y) :
    Sim (Linked sub app V) Eq (waitUntil x) (waitUntil y) := by
  intro s t hLinked
  have hArrivals : t.arrivals = s.arrivals := by rw [hLinked.visible]; rfl
  have hPending : t.pending = s.pending := by rw [hLinked.visible]; rfl
  rw [waitUntil, waitUntil, effect_bind, effect_bind, effect_get, effect_get]
  dsimp only
  rw [hArrivals, hPending]
  exact sim_waitFor hReady _ s t hLinked

---- Returning values

def withShared (n : Nat) (m : SharedMemory) (s : Node) : Node := { s with bank := s.bank.set n m }

theorem share (hLinked : Linked sub app V s t) (n : Nat)
    (hMemory : SharedMemory.Linked V.shown m m') :
    Linked sub app V (withShared n m s) (withShared n m' t) :=
  ⟨congrArg (withShared n m') hLinked.visible, hLinked.hosted,
    ⟨hLinked.hidden.own, hLinked.hidden.others,
      hLinked.hidden.bank.set n hMemory, hLinked.hidden.off⟩⟩

theorem setRegister_eq (hardware : Bool) (m : SharedMemory) (r : Reg) (v : Int) :
    m.setRegister hardware r (some v) = (checkPlace r).bind fun _ =>
        (Block.checkWidth hardware v).bind fun _ =>
          .ok { m with registers := put r (some v) m.registers } := by
  simp only [SharedMemory.setRegister, set_eq]
  cases checkPlace r <;> cases Block.checkWidth hardware v <;> rfl

theorem sim_returnReg (r : Reg) (v : Int) :
    Sim (Linked sub app V) Eq (returnReg app r v) (returnReg app r v) := by
  refine SimTo.bind_eq (sim_blind (Blind.trait.sharedOf app)) fun n => ?_
  intro s t hLinked
  have hMemory := hLinked.hidden.bank.memories n
  simp only [effect_bind, effect_get, hLinked.hardware_eq, setRegister_eq]
  cases Registers.checkPlace r with
  | error e => exact ⟨rfl, hLinked⟩
  | ok _ =>
    cases Block.checkWidth s.hardware v with
    | error e => exact ⟨rfl, hLinked⟩
    | ok _ =>
      refine ⟨trivial, hLinked.share n ⟨hMemory.arrays, fun q hShown => ?_⟩⟩
      by_cases hSame : q = r
      · subst hSame
        rw [Registers.value_put_self, Registers.value_put_self]
      · rw [Registers.value_put_of_ne hSame, Registers.value_put_of_ne hSame]
        exact hMemory.registers q hShown

theorem sim_performReturn {r : Reg} (read read' : Reader) (family family' : Family)
    (hNamed : V.named r) :
    Sim (Linked sub app V) Eq (performWith read sub family .retReg [.reg r])
      (performWith read' sub family' .retReg [.reg r]) := by
  refine sim_forApp (SimTo.bind_eq (sim_getReg hNamed) fun v => ?_)
  cases v with
  | none => exact SimTo.throw rfl
  | some v => exact (sim_returnReg _ v).done

def withHeap (heap : Heap) (s : Node) : Node := { s with heap := heap }

theorem alloc (hLinked : Linked sub app V s t) (heap : Heap) :
    Linked sub app V (withHeap heap s) (withHeap heap t) :=
  ⟨congrArg (withHeap heap) hLinked.visible, hLinked.hosted, hLinked.hidden⟩

theorem effect_shareBlock :
    effect (shareBlock n address block) s =
      match Arrays.create s.hardware s.heap (s.bank.get n).arrays address
          (s.heap.get block).length with
      | .error e => (.error e, s)
      | .ok (heap, arrays) =>
        let shared := withShared n { s.bank.get n with arrays := arrays } (withHeap heap s)
        match Block.checkRow s.hardware (s.heap.get block) with
        | .error e => (.error e, shared)
        | .ok _ =>
          (.ok ⟨⟩, withShared n { s.bank.get n with
              arrays := put address block (s.bank.get n).arrays } shared) := by
  simp only [shareBlock, effect_bind, effect_get]
  cases Arrays.create s.hardware s.heap (s.bank.get n).arrays address (s.heap.get block).length with
  | error e => rfl
  | ok made => cases Block.checkRow s.hardware (s.heap.get block) <;> rfl

theorem sim_returnArray (address : Int) :
    Sim (Linked sub app V) Eq (returnArray app address) (returnArray app address) := by
  refine SimTo.bind_eq (sim_blind (Blind.trait.arraysOf app)) fun arrays =>
    SimTo.bind_eq (SimTo.lift _) fun block =>
      SimTo.bind_eq (sim_blind (Blind.trait.sharedOf app)) fun n => ?_
  intro s t hLinked
  have hHeap : t.heap = s.heap := by rw [hLinked.visible]; rfl
  have hMemory := hLinked.hidden.bank.memories n
  have hArrays : (t.bank.get n).arrays = (s.bank.get n).arrays := hMemory.arrays
  rw [effect_shareBlock, effect_shareBlock, hLinked.hardware_eq, hHeap, hArrays]
  cases Arrays.create s.hardware s.heap (s.bank.get n).arrays address (s.heap.get block).length with
  | error e => exact ⟨rfl, hLinked⟩
  | ok made =>
    have hMade : SharedMemory.Linked V.shown { s.bank.get n with arrays := made.2 }
          { t.bank.get n with arrays := made.2 } :=
      ⟨rfl, hMemory.registers⟩
    have hShared := (hLinked.alloc made.1).share n hMade
    cases Block.checkRow s.hardware (s.heap.get block) with
    | error e => exact ⟨rfl, hShared⟩
    | ok _ => exact ⟨rfl, hShared.share n ⟨rfl, hMemory.registers⟩⟩

end QuantumNode.Node.Linked

namespace QuantumNode.Node
variable {i : Instr} {line next : Int} {t : Node} {output : Option Int}
variable {sub : Nat} {app : Int}

theorem program_line (sub : Nat) (behind code : List Instr) (i : Instr) :
    program sub (behind ++ i :: code).toArray behind.length = some (step sub behind.length i) := by
  have hInside : ¬ (((behind ++ i :: code).toArray.size : Int) ≤ behind.length) := by
    simp only [size_toArray, length_append, length_cons]
    omega
  have hPlace : place? (behind ++ i :: code).toArray.size behind.length = some behind.length := by
    unfold place?
    rw [if_pos (by omega), if_pos (by omega)]
    simp
  have hFetch : fetch (behind ++ i :: code).toArray behind.length = pure i := by
    simp only [fetch, hPlace]
    simp
  rw [program, if_neg hInside, hFetch]
  simp

theorem program_split {code behind rest : List Instr} {line : Nat}
    (hCode : code = behind ++ i :: rest) (hLength : behind.length = line) :
    program sub code.toArray line = some (step sub line i) := by
  rw [hCode, ← hLength]
  exact program_line sub behind rest i

theorem program_none {is : List Instr} {line : Nat} (hEnd : line = is.length) :
    program sub is.toArray line = none := by
  rw [program]
  simp [hEnd]

theorem program_at {is : List Instr} {line : Nat} {x : NodeM Int}
    (hAt : program sub is.toArray line = some x) :
    ∃ i, is[line]? = some i ∧ x = step sub line i := by
  have hBound : line < is.length := by
    have hInside := (program_eq_some hAt).1
    rw [size_toArray] at hInside
    omega
  have hSplit : is = is.take line ++ is[line] :: is.drop (line + 1) := by
    rw [← drop_eq_getElem_cons hBound, take_append_drop]
  have hLength : (is.take line).length = line := length_take_of_le (Nat.le_of_lt hBound)
  have hLine := program_line sub (is.take line) (is.drop (line + 1)) is[line]
  rw [← hSplit, hLength, hAt] at hLine
  exact ⟨is[line], getElem?_eq_getElem hBound, Option.some.inj hLine⟩

theorem setReg_ok (hEffect : effect (setReg app r v) s = (.ok a, t)) :
    ∃ regs, Table.get? app s.registers = some regs ∧
      t = Linked.withRegs app (Table.put r (some v) regs) s := by
  rcases of_bind_ok hEffect with ⟨regs, s₁, hRegs, hLater⟩
  rcases regsOf_ok hRegs with ⟨rfl, hFound⟩
  rw [effect_get_bind] at hLater
  rcases of_lift_bind_ok hLater with ⟨_, hChecked, ⟨⟩⟩
  rw [(Registers.set_ok hChecked).2]
  exact ⟨regs, hFound, rfl⟩

theorem effect_step :
    effect (step sub line i) t = match effect (execute sub line i) t with
      | (.ok (next, output), t') =>
        (match effect (record sub line i output) t' with
          | (.ok _, t'') => (.ok next, t'')
          | (.error e, t'') => (.error e, t''))
      | (.error e, t') => (.error e, t') := by
  rw [step, effect_bind]
  rcases effect (execute sub line i) t with ⟨e | ⟨next, output⟩, t'⟩
  · rfl
  · dsimp only
    rw [effect_bind]
    rcases effect (record sub line i output) t' with ⟨e | _, t''⟩ <;> rfl

theorem effect_record (hOff : t.logger = .off) :
    effect (record sub line i output) t = (.ok ⟨⟩, t) := by
  simp only [record, effect_bind, effect_get, hOff]
  rfl

theorem effect_step_ok (hExecute : effect (execute sub line i) t = (.ok (next, output), t'))
    (hOff : t'.logger = .off) : effect (step sub line i) t = (.ok next, t') := by
  rw [effect_step, hExecute]
  dsimp only
  rw [effect_record hOff]

theorem effect_step_error (hExecute : effect (execute sub line i) t = (.error e, t')) :
    effect (step sub line i) t = (.error e, t') := by
  rw [effect_step, hExecute]

-- The instruction for a constant writes it to its register.
theorem execute_set (line : Int) {p : Reg × Int} {n : Operand} (hostLine : Option HostLine)
    (hNumber : n.number? = some p.2) (hHosted : Table.get? sub t.subroutines = some (some app)) :
    effect (execute sub line (.op .core .set [.reg p.1, n] hostLine)) t =
      match effect (setReg app p.1 p.2) t with
      | (.ok _, t') => (.ok (line + 1, none), t')
      | (.error e, t') => (.error e, t') := by
  have hValue : numberOf n = .ok p.2 := by simp [numberOf, hNumber]
  simp only [execute, forks?, perform, performWith, effect_bind, effect_appOf hHosted, hValue, effect_lift]
  rcases effect (setReg app p.1 p.2) t with ⟨e | _, t'⟩ <;> rfl

variable {s : Node}

theorem set_holds (hHosts : s.Hosts sub app)
    (hExecute : effect (execute sub line (.op family .set [.reg r, .imm v] host)) s = (.ok out, t)) :
    t.registerOf app r = some v := by
  have hCore : effect (execute sub line (.op .core .set [.reg r, .imm v] host)) s = (.ok out, t) :=
    hExecute
  rcases Option.isSome_iff_exists.mp hHosts.registers with ⟨regs, hRegs⟩
  rw [execute_set line (p := (r, v)) host rfl hHosts.subroutine, Linked.effect_setReg hRegs]
    at hCore
  cases hSet : regs.set s.hardware r (some v) <;> rw [hSet] at hCore <;> cases hCore
  simp [registerOf, Linked.withRegs, (Registers.set_ok hSet).2]

theorem execute_next
    (hExecute : effect (execute sub line (.op family op os host)) s = (.ok (next, output), t)) :
    next = line + 1 ∨ ∃ fork ∈ forks? op os, next = fork.2.number?.getD (line + 1) := by
  cases hForks : forks? op os with
  | none =>
    simp only [execute, hForks] at hExecute
    rcases of_bind_ok hExecute with ⟨_, _, _, ⟨⟩⟩
    exact .inl rfl
  | some fork =>
    simp only [execute, hForks] at hExecute
    rcases of_bind_ok hExecute with ⟨taken, _, _, ⟨⟩⟩
    cases taken with
    | false => exact .inl rfl
    | true => exact .inr ⟨fork, rfl, rfl⟩

end QuantumNode.Node

namespace QuantumNode
variable {i : Instr} {op : Op} {q r : Reg} {γ : Type}

-- Whether an event is a gate.  A qubit that is made ready is none.
def Event.isGate : Event → Bool
  | single op _ => op != .init
  | rotation _ _ _ | double _ _ _ | controlled _ _ _ _ => true
  | measured _ _ | request _ | socket _ _ _ => false

namespace Node

-- A node that runs a subroutine of an application with some registers.
structure Serves (s : Node) (sub : Nat) (app : Int) (regs : Registers) : Prop where
  subroutine : Table.get? sub s.subroutines = some (some app)
  registers : Table.get? app s.registers = some regs

-- A gate on the qubits of some registers that is refused for a cause, if there is one.
structure Emits (rs : List Reg) (cause : Option Fault) (i : Instr) : Prop where
  undefined : ∀ {s sub app regs}, Serves s sub app regs → ∀ line,
      (∀ r ∈ rs, Registers.checkPlace r = .ok ()) → (∃ r ∈ rs, regs.value r = none) →
        effect (execute sub line i) s = (.error .unmet, s)
  refused : ∀ {s sub app regs}, Serves s sub app regs → ∀ line,
      (∀ r ∈ rs, Registers.checkPlace r = .ok ()) → (∀ r ∈ rs, (regs.value r).isSome) →
        ∀ f ∈ cause, effect (execute sub line i) s = (.error f, s)
  emits : ∀ {s sub app regs}, Serves s sub app regs → ∀ line,
      (∀ r ∈ rs, Registers.checkPlace r = .ok ()) → (∀ r ∈ rs, (regs.value r).isSome) →
        cause = none → ∃ event : Event, event.isGate = true ∧
          effect (execute sub line i) s = (.ok (line + 1, none), withEvents (s.events ++ [event]) s)

variable {sub : Nat} {app : Int} {regs : Registers} {s : Node}
section
variable (hServes : Serves s sub app regs)
include hServes
theorem Serves.effect_read (hPlace : Registers.checkPlace r = .ok ()) :
    effect (ofRegister app (.reg r)) s = (.ok (regs.value r), s) := by
  rw [ofRegister, Linked.effect_getReg hServes.registers, Registers.get_eq, hPlace]
  rfl

theorem Serves.effect_appOf : effect (appOf sub) s = (.ok app, s) :=
  Node.effect_appOf hServes.subroutine

theorem Serves.effect_demand (hPlace : Registers.checkPlace r = .ok ()) :
    effect (demandValue ofRegister app (.reg r)) s =
      ((regs.value r).elim (.error .unmet) .ok, s) := by
  rw [demandValue, effect_bind, hServes.effect_read hPlace]
  cases regs.value r <;> rfl

end

def cause? {γ : Type} : Checked γ → Option Fault
  | .error f => some f
  | .ok _ => none

-- Look up qubits, check something else, and report.
theorem emits_of {β : Type} {rs : List Reg} (read : Int → NodeM β) (check : Checked γ)
    (event : β → γ → Event) (hGate : ∀ b c, (event b c).isGate = true)
    (hExecute : ∀ sub line, execute sub line i = (do
      let b ← read (← appOf sub)
      let c ← check
      emit (event b c)
      return (line + 1, none)))
    (hRead : ∀ {s sub app regs}, Serves s sub app regs →
      (∀ r ∈ rs, Registers.checkPlace r = .ok ()) →
        ((∃ r ∈ rs, regs.value r = none) → effect (read app) s = (.error .unmet, s)) ∧
          ((∀ r ∈ rs, (regs.value r).isSome) → ∃ b, effect (read app) s = (.ok b, s))) :
    Emits rs (cause? check) i := by
  constructor
  · intro s sub app regs hServes line hPlaces hNone
    simp [hExecute, effect_bind, hServes.effect_appOf, (hRead hServes hPlaces).1 hNone]
  · intro s sub app regs hServes line hPlaces hSome f hCause
    rcases (hRead hServes hPlaces).2 hSome with ⟨b, hFound⟩
    cases check <;> cases hCause
    simp [hExecute, effect_bind, hServes.effect_appOf, hFound]
  · intro s sub app regs hServes line hPlaces hSome hCause
    rcases (hRead hServes hPlaces).2 hSome with ⟨b, hFound⟩
    cases check <;> cases hCause
    rename_i c
    refine ⟨event b c, hGate b c, ?_⟩
    simp only [hExecute, effect_bind, hServes.effect_appOf, hFound]
    rfl

theorem emits_one (check : Checked γ) (event : Int → γ → Event)
    (hGate : ∀ a c, (event a c).isGate = true)
    (hExecute : ∀ sub line, execute sub line i = (do
      let a ← demandValue ofRegister (← appOf sub) (.reg q)
      let c ← check
      emit (event a c)
      return (line + 1, none))) : Emits [q] (cause? check) i := by
  refine emits_of _ check event hGate hExecute fun hServes hPlaces => ?_
  rw [hServes.effect_demand (hPlaces q mem_cons_self)]
  constructor
  · rintro ⟨r, hr, hNone⟩
    cases mem_singleton.mp hr
    rw [hNone]
    rfl
  · intro hSome
    rcases Option.isSome_iff_exists.mp (hSome q mem_cons_self) with ⟨v, hValue⟩
    exact ⟨v, by rw [hValue]; rfl⟩

theorem emits_single (hGate : op ∈ [Op.x, .y, .z, .h, .s, .k, .t])
    (family : Family) (q : Reg) (hostLine : Option HostLine) :
    Emits [q] none (.op family op [.reg q] hostLine) := by
  refine emits_one (.ok ()) (fun a _ => .single op a) (fun a _ => ?_) fun _ _ => ?_
  · cases op <;> first | exact absurd hGate (by decide) | rfl
  · cases op <;> first | exact absurd hGate (by decide) | skip
    all_goals simp only [execute, perform, performWith, bind_assoc]; rfl

theorem emits_rotation (hGate : op ∈ [Op.rotX, .rotY, .rotZ])
    (family : Family) (q : Reg) (n d : Operand) (hostLine : Option HostLine) :
    Emits [q] (cause? (Gate.angleOf n d)) (.op family op [.reg q, n, d] hostLine) := by
  refine emits_one (Gate.angleOf n d) (fun a angle => .rotation op a angle) (fun _ _ => rfl)
    fun _ _ => ?_
  cases op <;> first | exact absurd hGate (by decide) | skip
  all_goals simp [execute, forks?, perform, performWith]

-- Two values, both of which have to be defined.
def bothOf : Option Int → Option Int → Checked (Int × Int)
  | some a, some b => .ok (a, b)
  | _, _ => .error .unmet

theorem bothOf_none (hNone : a = none ∨ b = none) : bothOf a b = .error .unmet := by
  rcases hNone with rfl | rfl
  · rfl
  · cases a <;> rfl

theorem emits_two (check : Checked γ) (event : Int → Int → γ → Event)
    (hGate : ∀ a b c, (event a b c).isGate = true)
    (hExecute : ∀ sub line, execute sub line i = (do
      let app ← appOf sub
      let first ← ofRegister app (.reg q)
      let second ← ofRegister app (.reg r)
      let both ← bothOf first second
      let c ← check
      emit (event both.1 both.2 c)
      return (line + 1, none))) : Emits [q, r] (cause? check) i := by
  refine emits_of (fun app => do
      let first ← ofRegister app (.reg q)
      bothOf first (← ofRegister app (.reg r))) check (fun both => event both.1 both.2)
    (fun _ => hGate _ _) (by simpa only [bind_assoc] using hExecute) fun hServes hPlaces => ?_
  have hFirst : q ∈ [q, r] := mem_cons_self
  have hSecond : r ∈ [q, r] := mem_cons_of_mem _ mem_cons_self
  simp only [effect_bind, hServes.effect_read (hPlaces q hFirst),
    hServes.effect_read (hPlaces r hSecond), effect_lift]
  constructor
  · rintro ⟨p, hp, hNone⟩
    rw [bothOf_none]
    rcases mem_cons.mp hp with rfl | hp
    · exact .inl hNone
    · cases mem_singleton.mp hp
      exact .inr hNone
  · intro hSome
    rcases Option.isSome_iff_exists.mp (hSome q hFirst) with ⟨v, hValue⟩
    rcases Option.isSome_iff_exists.mp (hSome r hSecond) with ⟨w, hOther⟩
    exact ⟨(v, w), by rw [hValue, hOther]; rfl⟩

theorem emits_double (hGate : op ∈ [Op.cnot, .cphase, .mov])
    (family : Family) (q r : Reg) (hostLine : Option HostLine) :
    Emits [q, r] none (.op family op [.reg q, .reg r] hostLine) := by
  refine emits_two (.ok ()) (fun a b _ => .double op a b) (fun _ _ _ => rfl) fun _ _ => ?_
  cases op <;> first | exact absurd hGate (by decide) | skip
  all_goals
    simp only [execute, perform, performWith, bind_assoc]
    refine bind_congr fun _ => bind_congr fun a => bind_congr fun b => ?_
    cases a <;> cases b <;> rfl

theorem emits_controlled (hGate : op ∈ [Op.crotX, .crotY])
    (family : Family) (q r : Reg) (n d : Operand) (hostLine : Option HostLine) :
    Emits [q, r] (cause? (Gate.angleOf n d)) (.op family op [.reg q, .reg r, n, d] hostLine) := by
  refine emits_two (Gate.angleOf n d) (fun a b angle => .controlled op a b angle)
    (fun _ _ _ => rfl) fun _ _ => ?_
  cases op <;> first | exact absurd hGate (by decide) | skip
  all_goals
    simp only [execute, perform, performWith, bind_assoc]
    refine bind_congr fun _ => bind_congr fun a => bind_congr fun b => ?_
    cases a <;> cases b <;> first | rfl | simp only [bind_assoc]; rfl

end Node

end QuantumNode
