import QuantumNode.Proofs.Effect

/-
  Properties of operations that composing hands on. Whether a node's operations have such a property
  is a matter of the few that they are made of: those that read and change a part of the state.
-/

open List

namespace QuantumNode.Node
variable (app address : Int) {ready : NodeM Bool} {p : Prop} {read : Reader}
variable {α β : Type}

-- The parts of a state that are about registers, about qubits and about what the node reports.
structure Veil where
  registers : Table Int Registers
  bank : MemoryBank
  units : Table Int Block
  used : List Int
  budget : Nat
  logger : Logger
  events : List Event

-- A state in which these parts are replaced.
def veil (s : Node) (v : Veil) : Node :=
  { s with
    registers := v.registers
    bank := v.bank
    units := v.units
    used := v.used
    budget := v.budget
    logger := v.logger
    events := v.events }

def veiled (s : Node) : Veil := ⟨s.registers, s.bank, s.units, s.used, s.budget, s.logger, s.events⟩

namespace Veil

-- Everything but the qubits is replaced.
def butQubits (v : Veil) (s : Node) : Veil := { v with units := s.units, used := s.used }

-- Everything but the registers and what hosts see is replaced.
def butRegisters (v : Veil) (s : Node) : Veil := { v with registers := s.registers, bank := s.bank }

end Veil

-- The applications, memories and qubits of two states are the same.
structure Aside (s t : Node) : Prop where
  name : t.name = s.name
  hardware : t.hardware = s.hardware
  heap : t.heap = s.heap
  bank : t.bank = s.bank
  registers : t.registers = s.registers
  arrays : t.arrays = s.arrays
  shared : t.shared = s.shared
  units : t.units = s.units
  used : t.used = s.used
  active : t.active = s.active

---- Traits

-- A property that operations have if their parts have it. An operation may look at the state.
structure Plain (C : ∀ {α : Type}, NodeM α → Prop) : Prop where
  protected pure : ∀ {α : Type} (a : α), C (pure a)
  protected throw : ∀ {α : Type} (f : Fault), C (throw f : NodeM α)
  lift : ∀ {α : Type} (c : Checked α), C (liftM c : NodeM α)
  protected bind :
    ∀ {α β : Type} {x : NodeM α} {f : α → NodeM β}, C x → (∀ a, C (f a)) → C (x >>= f)
  reads : ∀ {β : Type} {f : Node → NodeM β},
      (∀ (s : Node) (v : Veil), f (s.veil v) = f s) → (∀ s, C (f s)) → C (get >>= f)

-- An operation may look at registers and at what hosts see, too.
structure PlainRegisters (C : ∀ {α : Type}, NodeM α → Prop) : Prop extends Plain C where
  readsRegisters : ∀ {β : Type} {f : Node → NodeM β},
      (∀ (s : Node) (v : Veil), f (s.veil (v.butRegisters s)) = f s) →
      (∀ s, C (f s)) → C (get >>= f)

-- An operation may change what concerns neither memories nor qubits.
structure Look (C : ∀ {α : Type}, NodeM α → Prop) : Prop extends Plain C where
  aside : ∀ {g : Node → Node},
      (∀ (s : Node) (v : Veil), g (s.veil v) = (g s).veil v) → (∀ s, Aside s (g s)) →
      (∀ s, (g s).subroutines = s.subroutines) → C (modify g)

-- Operations that look at the state and end with one of a kind, where the property of those that
-- look is another one.
structure Ends (C D : ∀ {α : Type}, NodeM α → Prop) : Prop where
  of : ∀ {α : Type} {x : NodeM α}, C x → D x
  protected bind :
    ∀ {α β : Type} {x : NodeM α} {f : α → NodeM β}, C x → (∀ a, D (f a)) → D (x >>= f)
  answer : ∀ {α β : Type} {x : NodeM α} {f : α → β}, D x → D (x >>= fun a => pure (f a))
  pushTask : ∀ isCreator key task, task.left = task.total → D (pushTask isCreator key task)

-- An operation may look at qubits, too.
structure LookQubits (C : ∀ {α : Type}, NodeM α → Prop) : Prop extends Look C where
  readsQubits : ∀ {β : Type} {f : Node → NodeM β},
      (∀ (s : Node) (v : Veil), f (s.veil (v.butQubits s)) = f s) →
      (∀ s, C (f s)) → C (get >>= f)

structure LookRegisters (C : ∀ {α : Type}, NodeM α → Prop) : Prop extends Look C, PlainRegisters C

-- A property of all accesses to the state, but for the parts that are replaced.
structure Trait (C : ∀ {α : Type}, NodeM α → Prop) : Prop extends Look C where
  changes : ∀ {g : Node → Node}, (∀ (s : Node) (v : Veil), g (s.veil v) = (g s).veil v) →
      (∀ s, (g s).subroutines = s.subroutines) → C (modify g)
  aside hSame _ hKept := changes hSame hKept

-- A trait of all accesses to qubits, too.
structure QubitTrait (C : ∀ {α : Type}, NodeM α → Prop) : Prop extends Trait C, LookQubits C where
  changesQubits : ∀ {g : Node → Node},
      (∀ (s : Node) (v : Veil), g (s.veil (v.butQubits s)) = (g s).veil (v.butQubits (g s))) →
      (∀ s, (g s).subroutines = s.subroutines) → C (modify g)

-- A trait of all accesses to registers and to what hosts see, too.
structure RegisterTrait
    (C : ∀ {α : Type}, NodeM α → Prop) : Prop extends Trait C, LookRegisters C where
  changesRegisters : ∀ {g : Node → Node},
      (∀ (s : Node) (v : Veil), g (s.veil (v.butRegisters s)) = (g s).veil (v.butRegisters (g s))) →
      (∀ s, (g s).subroutines = s.subroutines) → C (modify g)

---- Forms of operations

theorem eq_of_effect (hSame : ∀ s, effect x s = effect y s) : x = y := funext hSame

-- A state that was read may as well be changed in place.
theorem setFrom_eq (c : Node → Checked α) (g : Node → α → Node) :
    (do
      let s ← get
      let a ← c s
      set (g s a) : NodeM PUnit) = (do
      let s ← get
      let a ← c s
      modify fun t => g t a) := by
  refine eq_of_effect fun s => ?_
  simp only [effect_bind, effect_get]
  cases c s <;> rfl

def takeOutcome : List Int → NodeM Int
  | [] => return 0
  | v :: rest => do
    modify fun s => { s with outcomes := rest }
    return v

theorem nextOutcome_eq : nextOutcome = (do takeOutcome (← get).outcomes) := by
  refine eq_of_effect fun s => ?_
  simp only [nextOutcome, effect_bind, effect_get]
  cases s.outcomes <;> rfl

theorem release_eq (qubit : Int) :
    release qubit = (do
      if (← get).used.contains qubit then
        modify fun s => { s with used := s.used.erase qubit }
      else throw .noKey) := by
  refine eq_of_effect fun s => ?_
  simp only [release, effect_bind, effect_get]
  split <;> rfl

-- Let the network go on, by what is still to arrive.
def awaitArrivals (pending : Nat) : List NewResponse → NodeM Unit
  | r :: rest => do
    modify fun s => { s with arrivals := rest }
    handleResponse r
  | [] => do
    drain
    if (← get).pending.length = pending then throw (.unexplained .blocked)

theorem awaitNetwork_eq :
    awaitNetwork = (do
      let s ← get
      awaitArrivals s.pending.length s.arrivals) := by
  refine eq_of_effect fun s => ?_
  simp only [awaitNetwork, effect_bind, effect_get]
  cases s.arrivals <;> rfl

variable {C D : ∀ {α : Type}, NodeM α → Prop}
namespace Plain

theorem ite (_ : Plain C) [Decidable p] (hThen : C x) (hElse : C y) : C (if p then x else y) := by
  split
  · exact hThen
  · exact hElse

variable (hC : Plain C)
include hC
theorem answer {x : NodeM α} {f : α → β} (hFirst : C x) : C (x >>= fun a => pure (f a)) :=
  hC.bind hFirst fun _ => hC.pure _

theorem refuse [Decidable p] (hElse : C (k ())) : C (if p then (throw f >>= k) else k ()) := by
  split
  · exact hC.throw f
  · exact hElse

theorem appOf (sub : Nat) : C (appOf sub) := by
  refine hC.reads (fun _ _ => rfl) fun s => ?_
  split
  · exact hC.throw _
  · exact hC.throw _
  · exact hC.pure _

theorem arraysOf : C (arraysOf app) := by
  refine hC.reads (fun _ _ => rfl) fun s => ?_
  split
  · exact hC.pure _
  · exact hC.throw _

theorem readPlace (place : Int) : C (readPlace app address place) :=
  hC.bind (hC.arraysOf app) fun _ => hC.reads (fun _ _ => rfl) fun _ => hC.lift _

theorem readSlice (slice : Slice) : C (readSlice app address slice) :=
  hC.bind (hC.arraysOf app) fun _ => hC.reads (fun _ _ => rfl) fun _ => hC.lift _

theorem demandArray : C (demandArray app address) := by
  refine hC.bind (hC.readSlice app address .full) fun _ => ?_
  split
  · exact hC.pure _
  · exact hC.throw _

theorem allDefined (slice : Slice) : C (allDefined app address slice) := by
  refine hC.bind (hC.readSlice app address slice) fun _ => ?_
  split
  · exact hC.throw _
  · exact hC.pure _

theorem sharedOf : C (sharedOf app) := by
  refine hC.reads (fun _ _ => rfl) fun s => ?_
  split
  · exact hC.pure _
  · exact hC.throw _

theorem fetch (is : Array Instr) (line : Int) : C (fetch is line) := by
  unfold Node.fetch
  split
  · exact hC.pure _
  · exact hC.throw _

theorem unitPlace (unit : Block) (address : Int) : C (unitPlace unit address) := by
  unfold Node.unitPlace
  split
  · exact hC.pure _
  · exact hC.throw _

theorem demandStack : C demandStack :=
  hC.reads (fun _ _ => rfl) fun _ => hC.ite (hC.throw _) (hC.pure _)

theorem virtualOf (task : PairTask) (pair : Int) : C (virtualOf app task pair) := by
  unfold Node.virtualOf
  split
  · exact hC.throw _
  · refine hC.bind (hC.bind (hC.pure pair) (hC.readPlace app _)) fun v => ?_
    split
    · exact hC.pure _
    · exact hC.throw _

theorem received (r : NewResponse) : C (received r) := by
  cases r with
  | former r | prepare fs => exact hC.pure _
  | _ => exact hC.answer (hC.lift _)

theorem awaitNetwork (hDrain : C drain)
    (hArrive : ∀ r rest, C (do
      modify fun s => { s with arrivals := rest }
      handleResponse r : NodeM Unit)) : C awaitNetwork := by
  rw [awaitNetwork_eq]
  refine hC.reads (fun _ _ => rfl) fun s => ?_
  cases s.arrivals with
  | nil =>
    exact hC.bind hDrain fun _ => hC.reads (fun _ _ => rfl) fun _ => hC.ite (hC.throw _) (hC.pure _)
  | cons r rest => exact hArrive r rest

theorem waitUntil (hAwait : C Node.awaitNetwork) (hReady : C ready) : C (waitUntil ready) := by
  have hRounds : ∀ rounds, C (waitFor ready rounds) := by
    intro rounds
    induction rounds with
    | zero => exact hC.throw _
    | succ rounds ih =>
      exact hC.bind hReady fun _ => hC.ite (hC.pure _) (hC.bind hAwait fun _ => ih)
  exact hC.reads (fun _ _ => rfl) fun _ => hRounds _

---- Requests for pairs

variable (hD : Ends C D)
include hD
-- A request is shown, which an operation with a trait has to be free to do.
theorem createPairs (hEmit : ∀ e : Event, C (Node.emit e))
    (sub : Nat) (app remoteNode socket : Int) (qubits : Option Int) (arguments results : Int) :
    D (createPairs sub app remoteNode socket qubits arguments results) := by
  refine hD.bind hC.demandStack fun _ =>
    hD.bind (hC.demandArray app arguments) fun _ => hD.bind (hC.lift _) fun request => ?_
  have hRest : D (do
      Node.emit (.request request)
      Node.pushTask true (remoteNode, request.purpose)
        ⟨sub, results, qubits, request.number, request.number⟩ : NodeM Unit) :=
    hD.bind (hEmit _) fun _ => hD.pushTask _ _ _ rfl
  split
  · cases qubits with
    | none => exact hD.bind (hC.throw _) fun _ => hRest
    | some address =>
      exact hD.bind (hC.demandArray app address) fun _ => hD.bind (hC.lift _) fun _ => hRest
  · exact hRest

theorem recvPairs (sub : Nat) (app remoteNode socket : Int) (qubits : Option Int) (results : Int) :
    D (recvPairs sub app remoteNode socket qubits results) :=
  hD.bind hC.demandStack fun _ =>
    hD.bind (hC.demandArray app results) fun _ => hD.pushTask _ _ _ rfl

end Plain

namespace Look
variable (hC : Look C)
include hC
theorem nextOutcome : C nextOutcome := by
  rw [nextOutcome_eq]
  refine hC.reads (fun _ _ => rfl) fun s => ?_
  cases s.outcomes with
  | nil => exact hC.pure _
  | cons v rest =>
    exact hC.answer (hC.aside (fun _ _ => rfl) (fun _ => by constructor <;> rfl) fun _ => rfl)

omit hC in
theorem tasksOf_veil (s : Node) (v : Veil) (isCreator : Bool) (key : PairKey) :
    (s.veil v).tasksOf isCreator key = s.tasksOf isCreator key := by
  rfl

theorem putTasks (isCreator : Bool) (key : PairKey) (ts : List PairTask) :
    C (putTasks isCreator key ts) := by
  refine hC.aside (fun _ _ => ?_) (fun _ => ?_) fun _ => ?_
  · cases isCreator <;> rfl
  · cases isCreator <;> constructor <;> rfl
  · cases isCreator <;> rfl

theorem pushTask (isCreator : Bool) (key : PairKey) (task : PairTask) :
    C (pushTask isCreator key task) :=
  hC.reads (fun s v => by rw [tasksOf_veil]) fun _ => hC.putTasks isCreator key _

theorem ends : Ends C C where
  of hLooks := hLooks
  bind := hC.bind
  answer := hC.answer
  pushTask isCreator key task _ := hC.pushTask isCreator key task

---- Responses

theorem countPair (isCreator : Bool) (key : PairKey) : C (countPair isCreator key) := by
  refine hC.reads (fun s v => by rw [tasksOf_veil]) fun s => ?_
  split
  · exact hC.pure _
  · exact hC.ite (hC.putTasks _ _ _) (hC.putTasks _ _ _)

variable (hAccept : ∀ task pair r, C (accept task pair r))
variable (hStore : ∀ task pair r, C (storeResult task pair r))
include hAccept hStore
theorem handleOne (place : Nat) (r : Response) : C (handleOne place r) := by
  unfold Node.handleOne
  apply hC.refuse
  refine hC.reads ?_ fun s => ?_
  · intro s v
    have hId : (s.veil v).id = s.id := rfl
    simp only [hId, tasksOf_veil]
  · refine hC.bind (hC.lift _) fun _ => ?_
    split
    · exact hC.throw _
    · dsimp only
      split
      · exact hC.pure _
      · refine hC.bind (hAccept _ _ r) fun _ => hC.ite (hC.pure _) ?_
        exact hC.bind (hC.countPair _ _) fun _ => hC.bind (hStore _ _ r) fun _ =>
          hC.answer (hC.aside (fun _ _ => rfl) (fun _ => by constructor <;> rfl) fun _ => rfl)

theorem handleFirst (place : Nat) (responses : List NewResponse) :
    C (handleFirst place responses) := by
  fun_induction Node.handleFirst place responses with
  | case1 => exact hC.pure _
  | case2 place r _ ih =>
    exact hC.bind (hC.handleOne hAccept hStore place r) fun _ => hC.ite (hC.pure _) ih
  | case3 => exact hC.throw _

theorem drain : C drain := by
  have hRounds : ∀ rounds, C (drainFor rounds) := by
    intro rounds
    induction rounds with
    | zero => exact hC.pure _
    | succ rounds ih =>
      exact hC.reads (fun _ _ => rfl) fun _ =>
        hC.bind (hC.handleFirst hAccept hStore 0 _) fun _ => hC.ite ih (hC.pure _)
  exact hC.reads (fun _ _ => rfl) fun _ => hRounds _

theorem handleResponse (r : NewResponse) : C (handleResponse r) :=
  hC.bind (hC.received r) fun _ =>
    hC.bind (hC.aside (fun _ _ => rfl) (fun _ => by constructor <;> rfl) fun _ => rfl) fun _ =>
      hC.drain hAccept hStore

theorem awaitNetwork : C awaitNetwork :=
  hC.toPlain.awaitNetwork (hC.drain hAccept hStore) fun r _ =>
    hC.bind (hC.aside (fun _ _ => rfl) (fun _ => by constructor <;> rfl) fun _ => rfl)
      fun _ => hC.handleResponse hAccept hStore r

theorem waitUntil (hReady : C ready) : C (waitUntil ready) :=
  hC.toPlain.waitUntil (hC.awaitNetwork hAccept hStore) hReady

end Look

namespace LookQubits
variable (hC : LookQubits C)
include hC
theorem unitOf : C (unitOf app) := by
  refine hC.readsQubits (fun _ _ => rfl) fun s => ?_
  split
  · exact hC.pure _
  · exact hC.throw _

theorem hasVirtual : C (hasVirtual app address) := by
  refine hC.readsQubits (fun _ _ => rfl) fun s => ?_
  split
  · exact hC.pure _
  · exact hC.ite (hC.pure _) (hC.pure _)

theorem positionOf : C (positionOf app address) := by
  refine hC.bind (hC.unitOf app) fun unit => hC.refuse (hC.bind (hC.unitPlace unit address) ?_)
  intro _
  split
  · exact hC.pure _
  · exact hC.reads (fun _ _ => rfl) fun _ => hC.throw _

theorem acceptKeep (hUse : ∀ qubit, C (use qubit))
    (hAllocate : ∀ sub address qubit, C (allocate sub address (some qubit)))
    (task : PairTask) (pair : Int) (r : Response) : C (acceptKeep task pair r) := by
  refine hC.bind (hC.appOf _) fun app =>
    hC.bind (hC.virtualOf app task pair) fun address =>
      hC.bind (hC.hasVirtual app address) fun _ => hC.ite (hC.pure _) ?_
  split
  · exact hC.bind (hUse _) fun _ => hC.answer (hAllocate _ _ _)
  · exact hC.throw _

theorem accept (hUse : ∀ qubit, C (use qubit))
    (hAllocate : ∀ sub address qubit, C (allocate sub address (some qubit)))
    (task : PairTask) (pair : Int) (r : Response) : C (accept task pair r) := by
  unfold Node.accept
  split
  · exact hC.acceptKeep hUse hAllocate task pair r
  · exact hC.pure _
  · exact hC.throw _
  · exact hC.throw _
  · exact hC.throw _

end LookQubits

namespace PlainRegisters
variable (hC : PlainRegisters C)
include hC
theorem regsOf : C (regsOf app) := by
  refine hC.readsRegisters (fun _ _ => rfl) fun s => ?_
  split
  · exact hC.pure _
  · exact hC.throw _

theorem getReg (r : Reg) : C (getReg app r) := hC.bind (hC.regsOf app) fun _ => hC.lift _

theorem evalIndex (i : Index) : C (evalIndex app i) := by
  cases i with
  | int v | shown v _ => exact hC.pure _
  | reg r =>
    refine hC.bind (hC.getReg app r) fun v => ?_
    split
    · exact hC.pure _
    · exact hC.throw _

theorem readEntry (i : Index) : C (readEntry app address i) :=
  hC.bind (hC.evalIndex app i) fun _ => hC.readPlace _ _ _

theorem evalSlice (start stop : Index) : C (evalSlice app start stop) :=
  hC.bind (hC.evalIndex app start) fun _ => hC.answer (hC.evalIndex app stop)

theorem anyDefined (start stop : Index) : C (anyDefined app address start stop) := by
  refine hC.bind (hC.evalSlice app start stop) fun slice =>
    hC.bind (hC.readSlice app address slice) fun _ => ?_
  split
  · exact hC.throw _
  · exact hC.pure _

theorem entryDefined (i : Index) :
    C (do return (← Node.readEntry app address i).isSome : NodeM Bool) :=
  hC.answer (hC.readEntry app address i)

---- Operands

theorem ofRegister (o : Operand) : C (ofRegister app o) := by
  cases o with
  | reg r => exact hC.getReg app r
  | _ => exact hC.throw _

theorem demandValue (hRead : ∀ app o, C (read app o)) (app : Int) (o : Operand) :
    C (demandValue read app o) := by
  refine hC.bind (hRead app o) fun v => ?_
  split
  · exact hC.pure _
  · exact hC.throw _

theorem takenWith (sub : Nat) (op : Op) (compared : List Operand) :
    C (takenWith Node.ofRegister sub op compared) := by
  have hValues : ∀ app, C (readAll Node.ofRegister app compared) := by
    intro app
    induction compared with
    | nil => exact hC.pure _
    | cons o rest ih => exact hC.bind (hC.ofRegister app o) fun _ => hC.answer ih
  exact hC.bind (hC.appOf sub) fun app =>
    hC.bind (hValues app) fun _ => hC.ite (hC.pure _) (hC.lift _)

variable (hD : Ends C D)
include hD
theorem arithmetic {app : Int} (hRead : ∀ app o, C (read app o)) (hSet : ∀ v, D (setReg app out v))
    (op : Op) (a b : Operand) (modulus : Option Int) : D (arithmetic read app op out a b modulus) := by
  refine hD.bind (hC.lift _) fun _ => hD.bind (hRead app a) fun x =>
    hD.bind (hRead app b) fun y => ?_
  split
  · exact hD.bind (hC.lift _) fun _ => hSet _
  · exact hD.of (hC.throw _)

theorem measure {app : Int} (hEmit : ∀ e : Event, C (Node.emit e)) (hNext : C nextOutcome)
    (hSet : ∀ v, D (setReg app out v)) (qubit : Operand) :
    D (measure Node.ofRegister app qubit out) :=
  hD.bind (hC.demandValue hC.ofRegister app qubit) fun _ => hD.bind hNext fun _ =>
    hD.bind (hEmit _) fun _ => hD.answer (hSet _)

theorem createFrom (hEmit : ∀ e : Event, C (Node.emit e))
    (sub : Nat) (app : Int) (remote socket qubits args results : Operand) :
    D (createFrom Node.ofRegister sub app remote socket qubits args results) := by
  refine hD.bind (hC.ofRegister app remote) fun _ =>
    hD.bind (hC.ofRegister app socket) fun _ =>
      hD.bind (hC.ofRegister app qubits) fun _ =>
        hD.bind (hC.ofRegister app args) fun _ => hD.bind (hC.ofRegister app results) fun _ => ?_
  split
  · exact hC.createPairs hD hEmit _ _ _ _ _ _ _
  · exact hD.of (hC.throw _)

theorem recvFrom (hRead : ∀ app o, C (read app o))
    (sub : Nat) (app : Int) (remote socket qubits results : Operand) :
    D (recvFrom read sub app remote socket qubits results) := by
  refine hD.bind (hRead app remote) fun _ =>
    hD.bind (hRead app socket) fun _ =>
      hD.bind (hRead app qubits) fun _ => hD.bind (hRead app results) fun _ => ?_
  split
  · exact hC.recvPairs hD _ _ _ _ _ _
  · exact hD.of (hC.throw _)

end PlainRegisters

---- Instructions

def written : Op → List Operand → List Int
  | .store, [_, .entry a _] => [a]
  | .undef, [.entry a _] => [a]
  | _, _ => []

def created : Op → List Operand → List Int
  | .array, [_, .addr a] => [a]
  | _, _ => []

def returns : Op → List Operand → Bool
  | .retReg, [.reg _] => true
  | .retArr, [.addr _] => true
  | _, _ => false

def waits : Op → List Operand → Bool
  | .waitAll, [.slice _ _ _] => true
  | .waitAny, [.slice _ _ _] => true
  | .waitSingle, [.entry _ _] => true
  | _, _ => false

-- Properties of what an instruction is made of, for the applications that it may act for.
structure Grants (C D : ∀ {α : Type}, NodeM α → Prop) (acts : Int → Prop) (sub : Nat) (op : Op)
    (operands : List Operand) : Prop where
  forApp : ∀ {α : Type} {f : Int → NodeM α}, (∀ app, acts app → D (f app)) → D (appOf sub >>= f)
  emit : ∀ e : Event, C (emit e)
  setReg : ∀ {app : Int}, acts app → ∀ r ∈ Instr.writes (.op .core op operands none), ∀ v,
      D (setReg app r v)
  nextOutcome : op = .meas → C nextOutcome
  allocate : op = .qalloc → ∀ address, D (allocate sub address none)
  free : op = .qfree → ∀ address, D (free sub address)
  writeEntry : ∀ {app : Int}, acts app → ∀ a ∈ written op operands, ∀ i v, D (writeEntry app a i v)
  createArray : ∀ {app : Int}, acts app → ∀ a ∈ created op operands, ∀ o,
      D (do createArray app a (← demandValue ofRegister app o) : NodeM Unit)
  returnReg :
    op = .retReg → ∀ r, operands = [.reg r] → ∀ {app : Int}, acts app → ∀ v, D (returnReg app r v)
  returnArray : returns op operands = true → ∀ {app : Int}, acts app → ∀ a, D (returnArray app a)
  waitUntil : waits op operands = true → ∀ {ready : NodeM Bool}, C ready → D (waitUntil ready)

namespace PlainRegisters
variable {acts : Int → Prop} {sub : Nat}
variable (hC : PlainRegisters C) (hD : Ends C D)
include hC hD
theorem perform (hG : Grants C D acts sub op os) (family : Family) :
    D (perform sub family op os) := by
  unfold Node.perform performWith
  split
  -- All but those that are refused are for an application.
  any_goals refine hG.forApp fun app hApp => ?_
  -- set, lea
  · exact hD.bind (hC.lift _) fun _ => hD.answer (hG.setReg hApp _ mem_cons_self _)
  · exact hD.answer (hG.setReg hApp _ mem_cons_self _)
  -- qalloc, qfree
  · refine hD.bind (hC.ofRegister app _) fun _ => ?_
    split
    · exact hD.of (hC.throw _)
    · exact hD.answer (hG.allocate rfl _)
  · exact hD.bind (hC.demandValue hC.ofRegister app _) fun _ => hD.answer (hG.free rfl _)
  -- store, load, undef, array
  · refine hD.bind (hC.ofRegister app _) fun v => ?_
    split
    · exact hD.answer (hD.of (hC.throw _))
    · exact hD.answer (hG.writeEntry hApp _ mem_cons_self _ _)
  · refine hD.bind (hC.readEntry app _ _) fun v => ?_
    split
    · exact hD.answer (hD.of (hC.throw _))
    · exact hD.answer (hG.setReg hApp _ mem_cons_self _)
  · exact hD.answer (hG.writeEntry hApp _ mem_cons_self _ _)
  · rw [← bind_assoc]
    exact hD.answer (hG.createArray hApp _ mem_cons_self _)
  -- add, sub, addm, subm
  · exact hD.answer (hC.arithmetic hD hC.ofRegister (hG.setReg hApp _ mem_cons_self) _ _ _ _)
  · exact hD.answer (hC.arithmetic hD hC.ofRegister (hG.setReg hApp _ mem_cons_self) _ _ _ _)
  · exact hD.bind (hC.ofRegister app _) fun _ =>
      hD.answer (hC.arithmetic hD hC.ofRegister (hG.setReg hApp _ mem_cons_self) _ _ _ _)
  · exact hD.bind (hC.ofRegister app _) fun _ =>
      hD.answer (hC.arithmetic hD hC.ofRegister (hG.setReg hApp _ mem_cons_self) _ _ _ _)
  -- meas, create_epr, recv_epr
  · exact hD.answer (hC.measure hD hG.emit (hG.nextOutcome rfl) (hG.setReg hApp _ mem_cons_self) _)
  · exact hD.answer (hC.createFrom hD hG.emit _ _ _ _ _ _ _)
  · exact hD.answer (hC.recvFrom hD hC.ofRegister _ _ _ _ _ _)
  -- wait_all, wait_any, wait_single
  · exact hD.bind (hC.evalSlice app _ _) fun _ => hD.answer (hG.waitUntil rfl (hC.allDefined _ _ _))
  · exact hD.answer (hG.waitUntil rfl (hC.anyDefined app _ _ _))
  · exact hD.answer (hG.waitUntil rfl (hC.entryDefined app _ _))
  -- ret_reg, ret_arr
  · refine hD.bind (hC.getReg app _) fun v => ?_
    split
    · exact hD.answer (hD.of (hC.throw _))
    · exact hD.answer (hG.returnReg rfl _ rfl hApp _)
  · exact hD.answer (hG.returnArray rfl hApp _)
  -- instructions that no node knows
  · exact hD.of (hC.throw _)
  · exact hD.of (hC.throw _)
  -- gates
  · exact hD.bind (hC.demandValue hC.ofRegister app _) fun _ => hD.answer (hD.of (hG.emit _))
  · refine hD.bind (hC.ofRegister app _) fun _ => hD.bind (hC.ofRegister app _) fun _ => ?_
    split
    · exact hD.answer (hD.of (hG.emit _))
    · exact hD.of (hC.throw _)
  · exact hD.bind (hC.demandValue hC.ofRegister app _) fun _ =>
      hD.bind (hC.lift _) fun _ => hD.answer (hD.of (hG.emit _))
  · refine hD.bind (hC.ofRegister app _) fun _ => hD.bind (hC.ofRegister app _) fun _ => ?_
    split
    · exact hD.bind (hC.lift _) fun _ => hD.answer (hD.of (hG.emit _))
    · exact hD.of (hC.throw _)
  · exact hD.of (hC.throw _)

theorem execute
    (hG : ∀ family op os host, i = .op family op os host →
      Grants C D acts sub op os) (line : Int) : D (execute sub line i) := by
  cases i with
  | note words => exact hD.of (hC.throw _)
  | op family op os host =>
    simp only [Node.execute]
    split
    · exact hD.answer (hD.of (hC.takenWith _ _ _))
    · exact hD.answer (hC.perform hD (hG family op os host rfl) family)

end PlainRegisters

namespace Trait
variable (hC : Trait C)
include hC
theorem setFrom {c : Node → Checked α} {g : Node → α → Node} (hSame : ∀ s v, c (veil s v) = c s)
    (hVeil : ∀ s v a, g (veil s v) a = (g s a).veil v)
    (hKept : ∀ s a, (g s a).subroutines = s.subroutines) :
    C (do
      let s ← get
      let a ← c s
      set (g s a) : NodeM PUnit) := by
  rw [setFrom_eq]
  exact hC.reads (fun s v => by rw [hSame]) fun s =>
    hC.bind (hC.lift _) fun a => hC.changes (fun s v => hVeil s v a) fun s => hKept s a

theorem createArray (size : Int) : C (createArray app address size) :=
  hC.bind (hC.arraysOf app) fun _ => hC.setFrom (fun _ _ => rfl) (fun _ _ _ => rfl) fun _ _ => rfl

theorem writePlace (place : Int) (v : Option Int) : C (writePlace app address place v) :=
  hC.bind (hC.arraysOf app) fun _ => hC.setFrom (fun _ _ => rfl) (fun _ _ _ => rfl) fun _ _ => rfl

theorem writeSlice (slice : Slice) (values : Block) : C (writeSlice app address slice values) :=
  hC.bind (hC.arraysOf app) fun _ => hC.setFrom (fun _ _ => rfl) (fun _ _ _ => rfl) fun _ _ => rfl

theorem storeResult (task : PairTask) (pair : Int) (r : Response) : C (storeResult task pair r) :=
  hC.bind (hC.appOf _) fun _ => hC.reads (fun _ _ => rfl) fun _ => hC.refuse (hC.writeSlice _ _ _ _)

end Trait

namespace QubitTrait
variable (hC : QubitTrait C)
include hC
theorem use (qubit : Int) : C (use qubit) := hC.changesQubits (fun _ _ => rfl) fun _ => rfl

theorem release (qubit : Int) : C (release qubit) := by
  rw [release_eq]
  exact hC.readsQubits (fun _ _ => rfl) fun _ =>
    hC.ite (hC.changesQubits (fun _ _ => rfl) fun _ => rfl) (hC.throw _)

theorem setUnit (unit : Block) : C (setUnit app unit) :=
  hC.changesQubits (fun _ _ => rfl) fun _ => rfl

theorem allocate (sub : Nat) (address : Int) (physical : Option Int) :
    C (allocate sub address physical) := by
  refine hC.bind (hC.appOf sub) fun app => hC.bind (hC.unitOf app) fun unit => hC.refuse ?_
  refine hC.bind (hC.unitPlace unit address) fun place => ?_
  have hMap : ∀ qubit, C (do
      Node.setUnit app (unit.set place (some qubit))
      return qubit : NodeM Int) := fun qubit =>
    hC.answer (hC.setUnit app _)
  split
  · exact hC.throw _
  · cases physical with
    | some qubit => exact hC.bind (hC.pure qubit) hMap
    | none =>
      exact hC.readsQubits (fun _ _ => rfl) fun s =>
        hC.bind (hC.use _) fun _ => hC.bind (hC.pure _) hMap

theorem free (sub : Nat) (address : Int) : C (free sub address) := by
  refine hC.bind (hC.appOf sub) fun app =>
    hC.bind (hC.unitOf app) fun unit => hC.bind (hC.unitPlace unit address) fun _ => ?_
  split
  · exact hC.throw _
  · exact hC.bind (hC.setUnit app _) fun _ => hC.release _

theorem accept (task : PairTask) (pair : Int) (r : Response) : C (accept task pair r) :=
  hC.toLookQubits.accept hC.use (fun sub address _ => hC.allocate sub address _) task pair r

theorem awaitNetwork : C awaitNetwork := hC.toLook.awaitNetwork hC.accept hC.storeResult

theorem waitUntil (hReady : C ready) : C (waitUntil ready) :=
  hC.toLook.waitUntil hC.accept hC.storeResult hReady

end QubitTrait

namespace RegisterTrait
variable (hC : RegisterTrait C)
include hC
theorem setReg (r : Reg) (v : Int) : C (setReg app r v) :=
  hC.bind (hC.regsOf app) fun _ =>
    hC.reads (fun _ _ => rfl) fun _ =>
      hC.bind (hC.lift _) fun _ => hC.changesRegisters (fun _ _ => rfl) fun _ => rfl

theorem writeEntry (i : Index) (v : Option Int) : C (writeEntry app address i v) :=
  hC.bind (hC.evalIndex app i) fun _ => hC.writePlace _ _ _ _

theorem updateShared (n : Nat) (m : SharedMemory) : C (updateShared n m) :=
  hC.changesRegisters (fun _ _ => rfl) fun _ => rfl

theorem returnReg (r : Reg) (v : Int) : C (returnReg app r v) :=
  hC.bind (hC.sharedOf app) fun n =>
    hC.readsRegisters (fun _ _ => rfl) fun _ => hC.bind (hC.lift _) fun _ => hC.updateShared n _

theorem returnArray : C (returnArray app address) :=
  hC.bind (hC.arraysOf app) fun _ =>
    hC.bind (hC.lift _) fun _ =>
      hC.bind (hC.sharedOf app) fun n =>
        hC.readsRegisters (fun _ _ => rfl) fun _ =>
          hC.bind (hC.lift _) fun _ =>
            hC.bind (hC.changes (fun _ _ => rfl) fun _ => rfl) fun _ =>
              hC.bind (hC.updateShared n _) fun _ =>
                hC.bind (hC.lift _) fun _ => hC.updateShared n _

end RegisterTrait

theorem Trait.execute (hQ : QubitTrait C) (hR : RegisterTrait C)
    (hEmit : ∀ e : Event, C (Node.emit e)) (sub : Nat) (line : Int) (i : Instr) :
    C (execute sub line i) := by
  have hG : ∀ op os, Grants C C (fun _ => True) sub op os := fun op os => {
    forApp := fun hThen => hQ.bind (hQ.appOf sub) fun app => hThen app trivial
    emit := hEmit
    setReg := fun _ r _ => hR.setReg _ r
    nextOutcome := fun _ => hR.nextOutcome
    allocate := fun _ address => hQ.allocate sub address none
    free := fun _ => hQ.free sub
    writeEntry := fun _ a _ => hR.writeEntry _ a
    createArray := fun _ a _ o =>
      hR.bind (hR.demandValue hR.ofRegister _ o) fun _ => hQ.createArray _ a _
    returnReg := fun _ r _ _ _ => hR.returnReg _ r
    returnArray := fun _ _ _ => hR.returnArray _
    waitUntil := fun _ _ hReady => hQ.waitUntil hReady }
  exact hR.toPlainRegisters.execute hR.ends (fun _ op os _ _ => hG op os) line

---- Relations of states

-- From every state, an operation goes only to states that the state is related to.
def Leads (R : Node → Node → Prop) (x : NodeM α) : Prop := ∀ s, R s (effect x s).2

-- A relation of states by which nothing has to happen and one thing may follow another.
structure Lax (R : Node → Node → Prop) : Prop where
  refl : ∀ s, R s s
  trans : ∀ {s t u}, R s t → R t u → R s u

-- What concerns neither memories nor qubits may change.
structure Lenient (R : Node → Node → Prop) : Prop extends Lax R where
  aside : ∀ {g : Node → Node},
      (∀ (s : Node) (v : Veil), g (s.veil v) = (g s).veil v) → (∀ s, Aside s (g s)) →
      (∀ s, (g s).subroutines = s.subroutines) → ∀ s, R s (g s)

namespace Lax
variable {R : Node → Node → Prop} (hR : Lax R)
include hR
theorem bind_from (hFirst : Leads R x)
    (hThen : ∀ s a t, effect x s = (.ok a, t) → R s t → R t (effect (f a) t).2) :
    Leads R (x >>= f) := by
  intro s
  have hHere := hFirst s
  rw [effect_bind]
  rcases hEffect : effect x s with ⟨e | a, t⟩
  · rw [hEffect] at hHere
    exact hHere
  · rw [hEffect] at hHere
    exact hR.trans hHere (hThen s a t hEffect hHere)

theorem tryCatch (hFirst : Leads R x) (hThen : ∀ e, Leads R (f e)) : Leads R (tryCatch x f) := by
  intro s
  have hHere := hFirst s
  rw [effect_tryCatch]
  generalize effect x s = outcome at hHere
  rcases outcome with ⟨e | a, t⟩
  · exact hR.trans hHere (hThen e t)
  · exact hHere

omit hR in
protected theorem get (hThen : ∀ s, Leads R (f s)) : Leads R (get >>= f) := fun s => hThen s s

theorem plain : PlainRegisters (Leads R) where
  pure _ s := hR.refl s
  throw _ s := hR.refl s
  lift _ s := hR.refl s
  bind hFirst hThen := hR.bind_from hFirst fun _ a t _ _ => hThen a t
  reads _ := Lax.get
  readsRegisters _ := Lax.get

end Lax

namespace Lenient
variable {R : Node → Node → Prop} (hR : Lenient R)
include hR
theorem registers : LookRegisters (Leads R) where
  toPlain := hR.plain.toPlain
  aside := hR.aside
  readsRegisters _ := Lax.get

theorem qubits : LookQubits (Leads R) where
  toLook := hR.registers.toLook
  readsQubits _ := Lax.get

theorem operandTexts (os : List Operand) : Leads R (operandTexts app os) := by
  have hC := hR.registers
  induction os with
  | nil => exact hC.pure _
  | cons o rest ih =>
    have hValue : Leads R (operandValue app o) := by
      cases o with
      | reg r => exact hC.getReg app r
      | entry a i => exact hC.readEntry app a i
      | _ => exact hC.pure _
    refine hC.bind (hC.bind hValue fun v => ?_) fun _ => hC.answer ih
    split <;> exact hC.pure _

theorem qubitsOf (op : Op) (os : List Operand) : Leads R (qubitsOf app op os) := by
  have hC := hR.registers
  have hArray : ∀ r, Leads R (qubitsOfArray app r) := by
    intro r
    refine hC.ite (hC.pure _) (hC.bind (hC.getReg app r) fun v => ?_)
    split
    · exact hC.bind (hC.arraysOf app) fun _ => hC.throw _
    · exact hC.bind (hC.arraysOf app) fun _ => hC.bind (hC.lift _) fun _ =>
        hC.reads (fun _ _ => rfl) fun _ => hC.pure _
  have hRegisters : Leads R (qubitRegisters app os) := by
    fun_induction qubitRegisters app os with
    | case1 => exact hC.pure _
    | case2 r _ _ ih => exact hC.bind (hC.getReg app r) fun _ => hC.answer ih
    | case3 _ _ _ ih | case4 _ _ _ ih => exact ih
  unfold Node.qubitsOf
  split
  · exact hArray _
  · exact hArray _
  · exact hRegisters

theorem physicalOf (addresses : Block) : Leads R (physicalOf app addresses) := by
  have hC := hR.qubits
  fun_induction Node.physicalOf app addresses with
  | case1 => exact hC.pure _
  | case2 => exact hC.bind (hC.unitOf app) fun _ => hC.throw _
  | case3 v _ ih =>
    refine hC.bind ?_ fun _ => hC.answer ih
    exact hR.tryCatch (hC.answer (hC.positionOf app v)) fun _ => hC.ite (hC.pure _) (hC.throw _)

theorem record (sub : Nat) (line : Int) (i : Instr) (output : Option Int) :
    Leads R (record sub line i output) := by
  have hC := hR.registers
  have hRecord : ∀ op os, Leads R (recordOp sub line op os output) := by
    intro op os
    refine hC.bind (hC.appOf sub) fun app => hC.bind (hR.operandTexts app os) fun _ =>
      hC.bind (hR.qubitsOf app op os) fun addresses =>
        hC.bind (hR.physicalOf app addresses) fun _ => Lax.get fun s => hC.refuse ?_
    exact hC.bind (hC.aside (fun _ _ => rfl) (fun _ => by constructor <;> rfl) fun _ => rfl)
      fun _ => hC.ite (hC.pure _) (hC.reads (fun _ _ => rfl) fun _ =>
        hC.aside (fun _ _ => rfl) (fun _ => by constructor <;> rfl) fun _ => rfl)
  refine Lax.get fun s => ?_
  split
  · exact hC.pure _
  · exact hRecord _ _
  · exact hC.pure _

end Lenient

end QuantumNode.Node
