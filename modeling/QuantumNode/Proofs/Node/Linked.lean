import QuantumNode.Proofs.Node.Trait

/-
  What operations of a node leave alone: some change no qubits, those on arrays, qubits and pairs
  neither read nor change registers, and nothing depends on what has been reported so far; and two
  nodes that differ only in registers that a program does not name, with operations that keep such
  nodes alike.
-/

namespace QuantumNode.Node
variable {α : Type}

structure SameQubits (s t : Node) : Prop where
  units : t.units = s.units
  used : t.used = s.used

theorem SameQubits.lenient : Lenient SameQubits where
  refl _ := ⟨rfl, rfl⟩
  trans hFirst hThen := ⟨hThen.units.trans hFirst.units, hThen.used.trans hFirst.used⟩
  aside _ hAside _ s := ⟨(hAside s).units, (hAside s).used⟩

-- An operation is quiet if it changes neither unit modules nor the qubits in use.
def Quiet (x : NodeM α) : Prop := Leads SameQubits x

namespace Quiet

theorem units (hQuiet : Quiet x) (s : Node) : (effect x s).2.units = s.units := (hQuiet s).units

theorem used (hQuiet : Quiet x) (s : Node) : (effect x s).2.used = s.used := (hQuiet s).used

protected theorem get : Quiet (get : NodeM Node) := SameQubits.lenient.refl

protected theorem modify (hUnits : ∀ s, (g s).units = s.units) (hUsed : ∀ s, (g s).used = s.used) :
    Quiet (modify g) :=
  fun s => ⟨hUnits s, hUsed s⟩

-- Only what is done to qubits need not be quiet.
theorem trait : RegisterTrait Quiet where
  toLookRegisters := SameQubits.lenient.registers
  changes hSame _ := Quiet.modify (fun s => (congrArg Node.units (hSame s s.veiled) :))
    fun s => (congrArg Node.used (hSame s s.veiled) :)
  changesRegisters hSame _ := Quiet.modify (fun s => (congrArg Node.units (hSame s s.veiled) :))
    fun s => (congrArg Node.used (hSame s s.veiled) :)

theorem hasVirtual (app address : Int) : Quiet (hasVirtual app address) :=
  SameQubits.lenient.qubits.hasVirtual app address

-- Replacing the state by one that was computed from it.
protected theorem setFrom {c : Node → Checked α} {g : Node → α → Node}
    (hUnits : ∀ s a, (g s a).units = s.units) (hUsed : ∀ s a, (g s a).used = s.used) :
    Quiet (do
      let s ← get
      let a ← c s
      set (g s a) : NodeM PUnit) := by
  rw [setFrom_eq]
  exact trait.bind Quiet.get fun _ => trait.bind (trait.lift _) fun a =>
    Quiet.modify (fun s => hUnits s a) fun s => hUsed s a

end Quiet

namespace Blind

-- The parts of a state, of which the hidden ones are replaced.
def veilFor (s : Node) (h : Hidden) : Veil :=
  { s.veiled with
    registers := h.registers
    bank := h.bank
    budget := h.budget
    logger := h.logger }

protected theorem emit (e : Event) : Blind (emit e) := Blind.modify (fun _ _ => rfl) fun _ => rfl

theorem trait : QubitTrait Blind where
  pure := Blind.pure
  throw := Blind.throw
  lift := Blind.lift
  bind := Blind.bind
  reads hSame hThen := Blind.get (fun s h => hSame s (veilFor s h)) hThen
  changes {g} hSame hKept := by
    refine Blind.modify (fun s h => ?_) hKept
    have hOwn : g s = (g s).veil s.veiled := hSame s s.veiled
    have hOther : g (s.cover h) = (g s).veil (veilFor s h) := hSame s (veilFor s h)
    exact hOther.trans (congrArg (fun t => cover t h) hOwn).symm
  readsQubits hSame hThen := Blind.get (fun s h => hSame s (veilFor s h)) hThen
  changesQubits {g} hSame hKept := by
    refine Blind.modify (fun s h => ?_) hKept
    have hOwn : g s = (g s).veil (s.veiled.butQubits (g s)) := hSame s s.veiled
    have hOther : g (s.cover h) = (g s).veil ((veilFor s h).butQubits (g s)) :=
      hSame s (veilFor s h)
    exact hOther.trans (congrArg (fun t => cover t h) hOwn).symm

end Blind

def withEvents (events : List Event) (s : Node) : Node := { s with events := events }

-- An operation is deaf if it adds the same events, and does the same otherwise, whatever events
-- there were.
structure Deaf (x : NodeM α) : Prop where
  adds : ∀ s, ∃ more, (effect x s).2.events = s.events ++ more ∧
        ∀ events, effect x (withEvents events s) =
          ((effect x s).1, withEvents (events ++ more) (effect x s).2)

namespace Deaf

theorem silent
    (hSilent : ∀ s events, effect x (withEvents events s) =
        ((effect x s).1, withEvents events (effect x s).2)) : Deaf x := by
  refine ⟨fun s => ⟨[], ?_, fun events => ?_⟩⟩
  · rw [List.append_nil]
    exact (congrArg (fun outcome => outcome.2.events) (hSilent s s.events) :)
  · rw [List.append_nil]
    exact hSilent s events

protected theorem bind (hFirst : Deaf x) (hThen : ∀ a, Deaf (f a)) : Deaf (x >>= f) := by
  refine ⟨fun s => ?_⟩
  rcases hFirst.adds s with ⟨more, hEvents, hSame⟩
  simp only [effect_bind, hSame]
  generalize effect x s = outcome at hEvents
  rcases outcome with ⟨e | a, t⟩
  · exact ⟨more, hEvents, fun _ => rfl⟩
  · rcases (hThen a).adds t with ⟨later, hLater, hSame'⟩
    refine ⟨more ++ later, ?_, fun _ => ?_⟩
    · rw [hLater, hEvents, List.append_assoc]
    · simp [hSame']

protected theorem get (hSame : ∀ s events, f (withEvents events s) = f s) (hThen : ∀ s, Deaf (f s)) :
    Deaf (get >>= f) := by
  refine ⟨fun s => ?_⟩
  simp only [effect_get_bind, hSame]
  exact (hThen s).adds s

protected theorem modify (hSame : ∀ s events, g (withEvents events s) = withEvents events (g s)) :
    Deaf (modify g) :=
  silent fun s events => by rw [effect_modify, effect_modify, hSame]

protected theorem emit (e : Event) : Deaf (emit e) := ⟨fun _ => ⟨[e], rfl, fun _ => rfl⟩⟩

-- The parts of a state, of which the events are replaced.
def veilFor (s : Node) (events : List Event) : Veil := { s.veiled with events := events }

theorem qubits : QubitTrait Deaf where
  pure _ := silent fun _ _ => rfl
  throw _ := silent fun _ _ => rfl
  lift _ := silent fun _ _ => rfl
  bind := Deaf.bind
  reads hSame hThen := Deaf.get (fun s events => hSame s (veilFor s events)) hThen
  changes {g} hSame _ := by
    refine Deaf.modify fun s events => ?_
    have hOwn : g s = (g s).veil s.veiled := hSame s s.veiled
    exact (hSame s (veilFor s events)).trans (congrArg (withEvents events) hOwn).symm
  readsQubits hSame hThen := Deaf.get (fun s events => hSame s (veilFor s events)) hThen
  changesQubits {g} hSame _ := by
    refine Deaf.modify fun s events => ?_
    have hOwn : g s = (g s).veil (s.veiled.butQubits (g s)) := hSame s s.veiled
    exact (hSame s (veilFor s events)).trans (congrArg (withEvents events) hOwn).symm

theorem registers : RegisterTrait Deaf where
  toTrait := qubits.toTrait
  readsRegisters hSame hThen := Deaf.get (fun s events => hSame s (veilFor s events)) hThen
  changesRegisters {g} hSame _ := by
    refine Deaf.modify fun s events => ?_
    have hOwn : g s = (g s).veil (s.veiled.butRegisters (g s)) := hSame s s.veiled
    exact (hSame s (veilFor s events)).trans (congrArg (withEvents events) hOwn).symm

theorem execute (sub : Nat) (line : Int) (i : Instr) : Deaf (execute sub line i) :=
  Trait.execute qubits registers Deaf.emit sub line i

end Deaf

end QuantumNode.Node

namespace QuantumNode
open MemoryBank

-- Memories with the same arrays and the same named registers.
structure SharedMemory.Linked (named : Reg → Prop) (m m' : SharedMemory) : Prop where
  arrays : m'.arrays = m.arrays
  registers : ∀ r, named r → m'.registers.value r = m.registers.value r

structure MemoryBank.Linked (named : Reg → Prop) (b b' : MemoryBank) : Prop where
  registry : b'.registry = b.registry
  size : b'.memories.size = b.memories.size
  memories : ∀ n, SharedMemory.Linked named (b.get n) (b'.get n)

namespace MemoryBank.Linked
variable {named : Reg → Prop} {b b' : MemoryBank}

protected theorem refl (b : MemoryBank) : Linked named b b :=
  ⟨rfl, rfl, fun _ => ⟨rfl, fun _ _ => rfl⟩⟩

theorem mono {weaker : Reg → Prop} (hLinked : Linked named b b')
    (hWeaker : ∀ r, weaker r → named r) : Linked weaker b b' :=
  ⟨hLinked.registry, hLinked.size, fun n =>
    ⟨(hLinked.memories n).arrays, fun r hr => (hLinked.memories n).registers r (hWeaker r hr)⟩⟩

protected theorem trans {others : Reg → Prop} (hFirst : Linked named b b')
    (hThen : Linked others b' b'') :
    Linked (fun r => named r ∧ others r) b b'' :=
  ⟨hThen.registry.trans hFirst.registry, hThen.size.trans hFirst.size, fun n =>
    ⟨(hThen.memories n).arrays.trans (hFirst.memories n).arrays, fun r hr =>
      ((hThen.memories n).registers r hr.2).trans ((hFirst.memories n).registers r hr.1)⟩⟩

theorem set (hLinked : Linked named b b') (n : Nat)
    (hMemory : SharedMemory.Linked named m m') :
    Linked named (b.set n m) (b'.set n m') := by
  refine ⟨hLinked.registry, ?_, fun k => ?_⟩
  · simp [MemoryBank.set, hLinked.size]
  · rw [get_set, get_set, hLinked.size]
    split
    · exact hMemory
    · exact hLinked.memories k

-- Registers that are not named may be shown on one side only.
theorem set_right (hLinked : Linked named b b') (n : Nat)
    (hMemory : SharedMemory.Linked named (b.get n) m') :
    Linked named b (b'.set n m') := by
  refine ⟨hLinked.registry, ?_, fun k => ?_⟩
  · simp [MemoryBank.set, hLinked.size]
  · rw [get_set]
    split
    · rename_i hSame
      rw [hSame.1]
      exact hMemory
    · exact hLinked.memories k

end MemoryBank.Linked

-- What is known of the registers on two sides: those that agree, those that agree where the host
-- sees them, and those that hold known values on the second side.
structure View where
  named : Reg → Prop
  shown : Reg → Prop
  held : List (Reg × Int)

namespace View

-- Nothing more is known of what registers hold than is given.
def holding (V : View) (held : List (Reg × Int)) : View := { V with held := held }

-- Registers that are written agree from then on.
def writing (V : View) (rs : List Reg) : View := { V with named := fun r => V.named r ∨ r ∈ rs }

-- All registers agree, and some hold known values.
def entire (held : List (Reg × Int)) : View := ⟨fun _ => True, fun _ => True, held⟩

-- A view that knows at most what another one knows.
structure Weaker (W V : View) : Prop where
  named : ∀ r, W.named r → V.named r
  shown : ∀ r, W.shown r → V.shown r
  held : ∀ p ∈ W.held, p ∈ V.held

namespace Weaker

protected theorem refl (V : View) : V.Weaker V := ⟨fun _ => id, fun _ => id, fun _ => id⟩

protected theorem trans {U V W : View} (hFirst : U.Weaker V) (hThen : V.Weaker W) : U.Weaker W :=
  ⟨fun r hr => hThen.named r (hFirst.named r hr), fun r hr => hThen.shown r (hFirst.shown r hr),
    fun p hp => hThen.held p (hFirst.held p hp)⟩

theorem writing (V : View) (rs : List Reg) : V.Weaker (V.writing rs) :=
  ⟨fun _ => .inl, fun _ => id, fun _ => id⟩

end Weaker

end View

namespace Node

---- Linked nodes

-- Registers of an application agree as far as a view says; those of the other applications are the
-- same.
structure Hidden.Linked (app : Int) (V : View) (g h : Hidden) : Prop where
  own : ∃ regs regs', Table.get? app g.registers = some regs ∧
        Table.get? app h.registers = some regs' ∧
        (∀ r, V.named r → regs'.value r = regs.value r) ∧
        ∀ p ∈ V.held, regs'.value p.1 = some p.2
  others : ∀ a, a ≠ app → Table.get? a h.registers = Table.get? a g.registers
  bank : MemoryBank.Linked V.shown g.bank h.bank
  off : g.logger = .off ∧ h.logger = .off

-- Two nodes that run a subroutine of an application and differ only in registers of which a view
-- does not say otherwise.
structure Linked (sub : Nat) (app : Int) (V : View) (s t : Node) : Prop where
  visible : t = s.cover t.hidden
  hosted : Table.get? sub s.subroutines = some (some app)
  hidden : Hidden.Linked app V s.hidden t.hidden

namespace Linked
variable {sub : Nat} {app : Int} {s t : Node} {V : View}

theorem mono (hLinked : Linked sub app V s t) (hWeaker : W.Weaker V) : Linked sub app W s t := by
  rcases hLinked.hidden.own with ⟨regs, regs', hLeft, hRight, hAgree, hValues⟩
  refine ⟨hLinked.visible, hLinked.hosted, ⟨⟨regs, regs', hLeft, hRight, ?_, ?_⟩,
    hLinked.hidden.others, hLinked.hidden.bank.mono hWeaker.shown, hLinked.hidden.off⟩⟩
  · exact fun r hr => hAgree r (hWeaker.named r hr)
  · exact fun p hp => hValues p (hWeaker.held p hp)

theorem hosted_right (hLinked : Linked sub app V s t) :
    Table.get? sub t.subroutines = some (some app) := by
  rw [hLinked.visible]
  exact hLinked.hosted

theorem hardware_eq (hLinked : Linked sub app V s t) : t.hardware = s.hardware := by
  rw [hLinked.visible]
  rfl

theorem registerOf_eq (hLinked : Linked sub app V s t) (hNamed : V.named r) :
    t.registerOf app r = s.registerOf app r := by
  rcases hLinked.hidden.own with ⟨_, _, hLeft, hRight, hAgree, _⟩
  have hOwn : Table.get? app s.registers = some _ := hLeft
  have hOther : Table.get? app t.registers = some _ := hRight
  rw [registerOf, registerOf, hOwn, hOther]
  exact hAgree r hNamed

-- Registers that agree on both legs agree on the whole way.
protected theorem trans (hFirst : Linked sub app V s t) (hThen : Linked sub app W t u) :
    Linked sub app
      ⟨fun r => V.named r ∧ W.named r, fun r => V.shown r ∧ W.shown r, W.held⟩ s u := by
  rcases hFirst.hidden.own with ⟨regs, regs', hLeft, hMiddle, hAgree, _⟩
  rcases hThen.hidden.own with ⟨regs₁, regs'', hMiddle', hRight, hAgree', hValues⟩
  have hSame : regs₁ = regs' := Option.some.inj (hMiddle'.symm.trans hMiddle)
  subst hSame
  have hCovered : t.cover u.hidden = (s.cover t.hidden).cover u.hidden :=
    congrArg (fun v => cover v u.hidden) hFirst.visible
  refine ⟨hThen.visible.trans hCovered, hFirst.hosted, ⟨⟨regs, regs'', hLeft, hRight, ?_, hValues⟩, ?_,
    hFirst.hidden.bank.trans hThen.hidden.bank, hFirst.hidden.off.1, hThen.hidden.off.2⟩⟩
  · exact fun r hr => (hAgree' r hr.2).trans (hAgree r hr.1)
  · exact fun a hOther => (hThen.hidden.others a hOther).trans (hFirst.hidden.others a hOther)

end Linked

-- A node that can run a subroutine of an application.
structure Hosts (s : Node) (sub : Nat) (app : Int) : Prop where
  subroutine : Table.get? sub s.subroutines = some (some app)
  registers : (Table.get? app s.registers).isSome
  off : s.logger = .off

theorem Linked.holds (hLinked : Linked sub app V s t) :
    t.Hosts sub app ∧ ∀ p ∈ V.held, t.registerOf app p.1 = some p.2 := by
  rcases hLinked.hidden.own with ⟨_, regs, _, hRegs, _, hValues⟩
  have hOwn : Table.get? app t.registers = some regs := hRegs
  refine ⟨⟨hLinked.hosted_right, by rw [hOwn]; rfl, hLinked.hidden.off.2⟩, fun p hp => ?_⟩
  rw [registerOf, hOwn]
  exact hValues p hp

section
variable {s : Node} {sub : Nat} {app : Int} (hHosts : s.Hosts sub app)
include hHosts
theorem Hosts.holding (V : View) (hHeld : ∀ p ∈ V.held, s.registerOf app p.1 = some p.2) :
    Linked sub app V s s := by
  rcases Option.isSome_iff_exists.mp hHosts.registers with ⟨regs, hRegs⟩
  refine ⟨rfl, hHosts.subroutine, ⟨⟨regs, regs, hRegs, hRegs, fun _ _ => rfl, ?_⟩,
    fun _ _ => rfl, MemoryBank.Linked.refl _, hHosts.off, hHosts.off⟩⟩
  intro p hp
  have hValue := hHeld p hp
  rwa [registerOf, hRegs] at hValue

theorem Hosts.linked (V : View) (hNothing : V.held = []) : Linked sub app V s s :=
  hHosts.holding V (hNothing ▸ List.forall_mem_nil _)

end

---- Operations in step

variable {α β γ δ : Type}

-- Results that are alike: both operations answer, and answers and states are related, or both are
-- refused for a cause of the same category.
def Alike (Φ : Node → Node → Prop) (Q : α → β → Node → Node → Prop) :
    Except Fault α × Node → Except Fault β × Node → Prop
  | (.ok a, s), (.ok b, t) => Q a b s t
  | (.error e, s), (.error f, t) => f.category = e.category ∧ Φ s t
  | _, _ => False

-- Operations that give like results from related states.
def LeadsTo (Φ : Node → Node → Prop) (Q : α → β → Node → Node → Prop) (x : NodeM α)
    (y : NodeM β) : Prop :=
  ∀ s t, Φ s t → Alike Φ Q (effect x s) (effect y t)

-- Operations behind which answers and states are related, each on their own.
abbrev SimTo (Φ Ψ : Node → Node → Prop) (R : α → β → Prop) (x : NodeM α) (y : NodeM β) : Prop :=
  LeadsTo Φ (fun a b s t => R a b ∧ Ψ s t) x y

-- Operations that keep states related.
abbrev Sim (Φ : Node → Node → Prop) (R : α → β → Prop) (x : NodeM α) (y : NodeM β) : Prop :=
  SimTo Φ Φ R x y

variable {Φ Ψ : Node → Node → Prop} {R : α → β → Prop} {x : NodeM α} {y : NodeM β}
  {f : α → NodeM γ} {g : β → NodeM δ}

-- What follows an operation may depend on how its answers and the states are related.
theorem LeadsTo.andThen {P : α → β → Node → Node → Prop} {Q : γ → δ → Node → Node → Prop}
    (hFirst : LeadsTo Φ P x y)
    (hThen : ∀ a b s t, P a b s t → Alike Φ Q (effect (f a) s) (effect (g b) t)) :
    LeadsTo Φ Q (x >>= f) (y >>= g) := by
  intro s t hStates
  have hAlike := hFirst s t hStates
  rw [effect_bind, effect_bind]
  generalize effect x s = first at hAlike
  generalize effect y t = second at hAlike
  rcases first with ⟨e | a, s'⟩ <;> rcases second with ⟨e' | b, t'⟩
  · exact hAlike
  · exact hAlike.elim
  · exact hAlike.elim
  · exact hThen a b s' t' hAlike

protected theorem LeadsTo.bind {Q : γ → δ → Node → Node → Prop} (hFirst : Sim Φ R x y)
    (hThen : ∀ a b, R a b → LeadsTo Φ Q (f a) (g b)) : LeadsTo Φ Q (x >>= f) (y >>= g) :=
  hFirst.andThen fun a b s t hRelated => hThen a b hRelated.1 s t hRelated.2

theorem LeadsTo.exchange {Q : α → β → Node → Node → Prop}
    (hSame : ∀ s t, Φ s t → effect y t = effect z t) (hLeads : LeadsTo Φ Q x z) :
    LeadsTo Φ Q x y := by
  intro s t hStates
  rw [hSame s t hStates]
  exact hLeads s t hStates

namespace SimTo

protected theorem pure (hRelated : R a b) : Sim Φ R (pure a) (pure b) := by
  intro s t hStates
  exact ⟨hRelated, hStates⟩

protected theorem throw {e f : Fault} (hCategory : f.category = e.category) :
    SimTo Φ Ψ R (throw e) (throw f) := by
  intro s t hStates
  exact ⟨hCategory, hStates⟩

protected theorem lift (c : Checked α) : Sim Φ Eq (liftM c : NodeM α) (liftM c) := by
  intro s t hStates
  cases c <;> exact ⟨rfl, hStates⟩

variable {Q : γ → δ → Prop}

protected theorem bind (hFirst : Sim Φ R x y)
    (hThen : ∀ a b, R a b → SimTo Φ Ψ Q (f a) (g b)) : SimTo Φ Ψ Q (x >>= f) (y >>= g) :=
  LeadsTo.bind hFirst hThen

protected theorem bind_eq {x y : NodeM α} {g : α → NodeM δ}
    (hFirst : Sim Φ Eq x y) (hThen : ∀ a, SimTo Φ Ψ Q (f a) (g a)) :
    SimTo Φ Ψ Q (x >>= f) (y >>= g) := by
  refine SimTo.bind hFirst fun a b hSame => ?_
  subst hSame
  exact hThen a

protected theorem answer {f : α → γ} {g : β → δ} (hSim : SimTo Φ Ψ R x y)
    (hAnswers : ∀ a b, R a b → Q (f a) (g b)) :
    SimTo Φ Ψ Q (x >>= fun a => pure (f a)) (y >>= fun b => pure (g b)) :=
  hSim.andThen fun a b _ _ hRelated => ⟨hAnswers a b hRelated.1, hRelated.2⟩

protected theorem done (hSim : SimTo Φ Ψ R x y) :
    SimTo Φ Ψ Eq (x >>= fun _ => pure c) (y >>= fun _ => pure c) :=
  hSim.answer fun _ _ _ => rfl

protected theorem relax {Ψ' : Node → Node → Prop} (hSim : SimTo Φ Ψ R x y)
    (hWeaker : ∀ s t, Ψ s t → Ψ' s t) : SimTo Φ Ψ' R x y := by
  rw [← bind_pure x, ← bind_pure y]
  exact hSim.andThen fun _ _ s t hRelated => ⟨hRelated.1, hWeaker s t hRelated.2⟩

end SimTo

end Node

end QuantumNode
