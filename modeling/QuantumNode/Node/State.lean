import QuantumNode.Link
import QuantumNode.Memory
import QuantumNode.Quantum.Rotation
import QuantumNode.Subroutine

/-
  The state of a node: the memories of its applications, their qubits, and what is asked of the
  network; and the operations on it: registers and arrays are read and written, physical qubits are
  given to virtual addresses, pairs are asked for, and responses of the link layer are handled.
-/

namespace QuantumNode

-- What a node asks of its quantum hardware and of the network.
inductive Event
  | single (op : Op) (qubit : Int)
  | rotation (op : Op) (qubit : Int) (angle : Angle)
  | double (op : Op) (first second : Int)
  | controlled (op : Op) (first second : Int) (angle : Angle)
  | measured (qubit outcome : Int)
  | request (r : CreateRequest)
  | socket (id remoteNode remoteId : Int)
  deriving DecidableEq

structure PairTask where
  subroutine : Nat
  results : Int
  qubits : Option Int
  total : Int
  left : Int
  deriving DecidableEq

-- The partner of a request: a remote node and a purpose.
abbrev PairKey := Int × Int

structure LogEntry where
  appId : Int
  subroutine : Nat
  counter : Int
  instr : String
  operands : List String
  angle : Option Angle
  virtualQubits : List Int
  physicalQubits : List (Option Int)
  outcome : Option Int
  group : List (String × Int × Int)
  words : String
  deriving DecidableEq

-- Whether and how executed instructions are recorded.
inductive Logger
  | off
  | recording
  | bare
  deriving DecidableEq, Inhabited

structure Node where
  name : String
  id : Int
  flavour : Flavour
  hardware : Bool
  hasStack : Bool
  heap : Heap
  bank : MemoryBank
  registers : Table Int Registers
  arrays : Table Int Arrays
  shared : Table Int Nat
  units : Table Int Block
  used : List Int
  subroutines : Table Nat (Option Int)
  nextSubroutine : Nat
  createTasks : Table PairKey (List PairTask)
  recvTasks : Table PairKey (List PairTask)
  pending : List NewResponse
  arrivals : List NewResponse
  outcomes : List Int
  budget : Nat
  events : List Event
  logger : Logger
  log : List LogEntry
  tracked : List (String × Int × Int)
  active : List Int
  finished : Bool
  stopped : Bool
  deriving Inhabited

namespace Node

def stepBudget : Nat := 5000

def fresh (name : String) (id : Int) (flavour : Flavour) (hardware hasStack : Bool) : Node where
  name := name
  id := id
  flavour := flavour
  hardware := hardware
  hasStack := hasStack
  heap := .empty
  bank := .empty
  registers := []
  arrays := []
  shared := []
  units := []
  used := []
  subroutines := []
  nextSubroutine := 0
  createTasks := []
  recvTasks := []
  pending := []
  arrivals := []
  outcomes := []
  budget := stepBudget
  events := []
  logger := .off
  log := []
  tracked := []
  active := []
  finished := false
  stopped := false

end Node

-- Operations on a node. A refused operation leaves the state that it had reached.
abbrev NodeM := ExceptT Fault (StateM Node)

namespace Node

def emit (e : Event) : NodeM Unit :=
  modify fun s => { s with events := s.events ++ [e] }

def appOf (sub : Nat) : NodeM Int := do
  match Table.get? sub (← get).subroutines with
  | none => throw (.node (.unknownSubroutine sub))
  | some none => throw .unmet
  | some (some app) => return app

end Node

end QuantumNode

namespace QuantumNode.Node
open Table
variable (sub : Nat) (app : Int)

def regsOf : NodeM Registers := do
  match get? app (← get).registers with
  | some regs => return regs
  | none => throw .noKey

def getReg (r : Reg) : NodeM (Option Int) := do
  (← regsOf app).get r

def setReg (r : Reg) (v : Int) : NodeM Unit := do
  let regs ← (← regsOf app).set (← get).hardware r (some v)
  modify fun s => { s with registers := put app regs s.registers }

def arraysOf : NodeM Arrays := do
  match get? app (← get).arrays with
  | some arrays => return arrays
  | none => throw .noKey

def evalIndex : Index → NodeM Int
  | .int v | .shown v _ => return v
  | .reg r => do
    match ← getReg app r with
    | some v => return v
    | none => throw (.node (.indexUndefined r.text))

def createArray (address size : Int) : NodeM Unit := do
  let arrays ← arraysOf app
  let s ← get
  let (heap, arrays) ← Arrays.create s.hardware s.heap arrays address size
  set { s with heap := heap, arrays := put app arrays s.arrays }

def readPlace (address place : Int) : NodeM (Option Int) := do
  let arrays ← arraysOf app
  let s ← get
  Arrays.readAt s.hardware s.heap arrays address place

def readEntry (address : Int) (i : Index) : NodeM (Option Int) := do
  readPlace app address (← evalIndex app i)

def writePlace (address place : Int) (v : Option Int) : NodeM Unit := do
  let arrays ← arraysOf app
  let s ← get
  let heap ← Arrays.writeAt s.hardware s.heap arrays address place v
  set { s with heap := heap }

def writeEntry (address : Int) (i : Index) (v : Option Int) : NodeM Unit := do
  writePlace app address (← evalIndex app i) v

def evalSlice (start stop : Index) : NodeM Slice := do
  let lo ← evalIndex app start
  let hi ← evalIndex app stop
  return Slice.between lo hi

def readSlice (address : Int) (slice : Slice) : NodeM (Option Block) := do
  let arrays ← arraysOf app
  let s ← get
  Arrays.readSlice s.hardware s.heap arrays address slice

def demandArray (address : Int) : NodeM Block := do
  match ← readSlice app address .full with
  | some b => return b
  | none => throw .unmet

def writeSlice (address : Int) (slice : Slice) (values : Block) : NodeM Unit := do
  let arrays ← arraysOf app
  let s ← get
  let heap ← Arrays.writeSlice s.hardware s.heap arrays address slice values
  set { s with heap := heap }

def sharedOf : NodeM Nat := do
  match get? app (← get).shared with
  | some n => return n
  | none => throw .noKey

def updateShared (n : Nat) (m : SharedMemory) : NodeM Unit :=
  modify fun s => { s with bank := s.bank.set n m }

def returnReg (r : Reg) (v : Int) : NodeM Unit := do
  let n ← sharedOf app
  let s ← get
  updateShared n (← (s.bank.get n).setRegister s.hardware r (some v))

-- Show a block to the host as the array at an address. The host gets an array without defined
-- entries first.
def shareBlock (n : Nat) (address : Int) (block : Nat) : NodeM Unit := do
  let s ← get
  let values := s.heap.get block
  let m := s.bank.get n
  let (heap, arrays) ← Arrays.create s.hardware s.heap m.arrays address values.length
  modify fun s => { s with heap := heap }
  updateShared n { m with arrays := arrays }
  Block.checkRow s.hardware values
  updateShared n { m with arrays := put address block m.arrays }

def returnArray (address : Int) : NodeM Unit := do
  let block ← Arrays.block (← arraysOf app) address
  let n ← sharedOf app
  shareBlock n address block

---- Qubits

def unusedQubit (used : List Int) : Int :=
  match (List.range (used.length + 1)).find? fun n => !used.contains (Int.ofNat n) with
  | some n => n
  | none => used.length

def use (qubit : Int) : NodeM Unit :=
  modify fun s => { s with used := if s.used.contains qubit then s.used else s.used ++ [qubit] }

def release (qubit : Int) : NodeM Unit := do
  let s ← get
  if s.used.contains qubit then set { s with used := s.used.erase qubit }
  else throw .noKey

def unitOf : NodeM Block := do
  match get? app (← get).units with
  | some unit => return unit
  | none => throw (.node (.noUnitModule app))

def setUnit (unit : Block) : NodeM Unit :=
  modify fun s => { s with units := put app unit s.units }

-- The place of a virtual address, counted from the end if negative.
def unitPlace (unit : Block) (address : Int) : NodeM Nat :=
  match place? unit.length address with
  | some p => return p
  | none => throw .noIndex

def allocate (address : Int) (physical : Option Int) : NodeM Int := do
  let app ← appOf sub
  let unit ← unitOf app
  if (unit.length : Int) ≤ address then
    throw (.node (.addressOutside address app unit.length))
  let place ← unitPlace unit address
  match (unit[place]?).join with
  | some _ => throw (.node (.alreadyAllocated address app))
  | none =>
    let qubit ← match physical with
      | some q => pure q
      | none => do
        let q := unusedQubit (← get).used
        use q
        pure q
    setUnit app (unit.set place (some qubit))
    return qubit

def free (address : Int) : NodeM Unit := do
  let app ← appOf sub
  let unit ← unitOf app
  let place ← unitPlace unit address
  match (unit[place]?).join with
  | none => throw (.node (.notAllocatedToFree address app))
  | some qubit =>
    setUnit app (unit.set place none)
    release qubit

def hasVirtual (address : Int) : NodeM Bool := do
  match get? app (← get).units with
  | none => return false
  | some unit =>
    if address < 0 ∨ (unit.length : Int) ≤ address then return false
    return ((unit[address.toNat]?).join).isSome

def positionOf (address : Int) : NodeM Int := do
  let unit ← unitOf app
  if (unit.length : Int) ≤ address then
    throw (.node (.outsideUnitModule address unit.length))
  let place ← unitPlace unit address
  match (unit[place]?).join with
  | some qubit => return qubit
  | none => throw (.node (.notAllocated address app (← get).name))

def position (sub : Option Int) (address : Int) (app : Option Int) : NodeM Int := do
  match app, sub with
  | some a, _ => positionOf a address
  | none, some s =>
    if s < 0 then throw (.node (.unknownSubroutine s))
    positionOf (← appOf s.toNat) address
  | none, none => throw (.node .noSubroutineNorApp)

def initApp (maxQubits : Int) : NodeM Unit := do
  setUnit app (Block.fresh maxQubits)
  modify fun s => { s with
    registers := put app [] s.registers
    arrays := put app [] s.arrays }
  let s ← get
  let (bank, n) ← s.bank.create s.name (some app)
  set { s with bank := bank, shared := put app n s.shared }

def releaseAll : Block → NodeM Unit
  | [] => return ()
  | none :: rest => releaseAll rest
  | some q :: rest => do
    release q
    releaseAll rest

def stopApp : NodeM Unit := do
  let s ← get
  match get? app s.units with
  | none => throw .noKey
  | some unit =>
    set { s with units := erase app s.units }
    releaseAll unit
  let s ← get
  if !has app s.registers then throw .noKey
  set { s with registers := erase app s.registers }
  let s ← get
  if !has app s.arrays then throw .noKey
  set { s with arrays := erase app s.arrays }
  let s ← get
  if !has app s.shared then throw .noKey
  set { s with shared := erase app s.shared }

---- Pairs

def resultFields : Nat := 10

---- Requests

def tasks (s : Node) (isCreator : Bool) : Table PairKey (List PairTask) :=
  if isCreator then s.createTasks else s.recvTasks

def setTasks (s : Node) (isCreator : Bool) (t : Table PairKey (List PairTask)) : Node :=
  if isCreator then { s with createTasks := t } else { s with recvTasks := t }

def tasksOf (s : Node) (isCreator : Bool) (key : PairKey) : List PairTask :=
  (get? key (s.tasks isCreator)).getD []

def putTasks (isCreator : Bool) (key : PairKey) (ts : List PairTask) : NodeM Unit :=
  modify fun s => s.setTasks isCreator (put key ts (s.tasks isCreator))

def pushTask (isCreator : Bool) (key : PairKey) (task : PairTask) : NodeM Unit := do
  putTasks isCreator key ((← get).tasksOf isCreator key ++ [task])

def demandStack : NodeM Unit := do
  if !(← get).hasStack then throw (.node .noStack)

def createPairs (remoteNode socket : Int) (qubits : Option Int)
    (arguments results : Int) : NodeM Unit := do
  demandStack
  let request ← CreateRequest.ofArguments remoteNode socket (← demandArray app arguments)
  if request.kind = .keep then
    match qubits with
    | none => throw .unmet
    | some address =>
      let ids ← demandArray app address
      demand (ids.length = request.number) (.node .qubitCount)
  emit (.request request)
  pushTask true (remoteNode, request.purpose) ⟨sub, results, qubits, request.number, request.number⟩

def recvPairs (remoteNode socket : Int) (qubits : Option Int) (results : Int) : NodeM Unit := do
  demandStack
  let count := (← demandArray app results).length / resultFields
  pushTask false (remoteNode, socket) ⟨sub, results, qubits, count, count⟩

---- Responses

def virtualOf (task : PairTask) (pair : Int) : NodeM Int := do
  match task.qubits with
  | none => throw (.language (.notAValue "None"))
  | some address =>
    match ← readEntry app address (.int pair) with
    | some v => return v
    | none => throw (.node .virtualUndefined)

-- Map the virtual address for a pair to the physical qubit that holds it, unless the address is in
-- use.
def acceptKeep (task : PairTask) (pair : Int) (r : Response) : NodeM Bool := do
  let app ← appOf task.subroutine
  let address ← virtualOf app task pair
  if ← hasVirtual app address then return false
  match r with
  | .keep k =>
    use k.logicalQubit.number
    let _ ← allocate task.subroutine address (some k.logicalQubit.number)
    return true
  | _ => throw .noAttribute

def accept (task : PairTask) (pair : Int) (r : Response) : NodeM Bool :=
  match r.tag with
  | .okKeep => acceptKeep task pair r
  | .okMeasure => return true
  | .okPrepare => throw .mistyped
  | .err => throw .noKey
  | .createId => throw .noKey

def storeResult (task : PairTask) (pair : Int) (r : Response) : NodeM Unit := do
  let app ← appOf task.subroutine
  if !has app (← get).arrays then throw (.node .appWithoutArrays)
  writeSlice app task.results (.between (pair * resultFields) ((pair + 1) * resultFields)) r.values

def countPair (isCreator : Bool) (key : PairKey) : NodeM Unit := do
  match (← get).tasksOf isCreator key with
  | [] => return ()
  | task :: rest =>
    let left := task.left - 1
    if left = 0 then putTasks isCreator key rest
    else putTasks isCreator key ({ task with left := left } :: rest)

-- Handle the pending response at a place, if it can be handled now.
def handleOne (place : Nat) (r : Response) : NodeM Bool := do
  if r.tag = .err then throw (.node (.linkError r.text))
  let s ← get
  let creator ← r.creator s.id
  let isCreator : Bool := creator = s.id
  match r.route? with
  | none => throw .noAttribute
  | some (purpose, remote, _) =>
    match s.tasksOf isCreator (remote, purpose) with
    | [] => return false
    | task :: _ =>
      let pair := task.total - task.left
      if !(← accept task pair r) then return false
      countPair isCreator (remote, purpose)
      storeResult task pair r
      modify fun s => { s with pending := s.pending.eraseIdx place }
      return true

def handleFirst : Nat → List NewResponse → NodeM Bool
  | _, [] => return false
  | place, .former r :: rest => do
    if ← handleOne place r then return true
    handleFirst (place + 1) rest
  | _, _ :: _ => throw .noAttribute

-- Handle pending responses until none can be handled. Each round removes one of them.
def drainFor : Nat → NodeM Unit
  | 0 => return ()
  | n + 1 => do
    if ← handleFirst 0 (← get).pending then drainFor n

def drain : NodeM Unit := do
  drainFor (← get).pending.length

def received : NewResponse → NodeM NewResponse
  | .former r => return .former r
  | .prepare fs => return .prepare fs
  | r => do return .former (← r.convert)

def handleResponse (r : NewResponse) : NodeM Unit := do
  let r ← received r
  modify fun s => { s with pending := s.pending ++ [r] }
  drain

-- Let the network go on: the next response arrives, or pending ones are tried once more. A node
-- that cannot go on is blocked.
def awaitNetwork : NodeM Unit := do
  let s ← get
  match s.arrivals with
  | r :: rest =>
    set { s with arrivals := rest }
    handleResponse r
  | [] =>
    drain
    if (← get).pending.length = s.pending.length then throw (.unexplained .blocked)

def waitFor (ready : NodeM Bool) : Nat → NodeM Unit
  | 0 => throw (.unexplained .blocked)
  | n + 1 => do
    if ← ready then return ()
    awaitNetwork
    waitFor ready n

-- Wait until a condition holds. Every arrival adds at most one pending response, so the rounds are
-- bounded.
def waitUntil (ready : NodeM Bool) : NodeM Unit := do
  let s ← get
  waitFor ready (2 * s.arrivals.length + s.pending.length + 2)

end QuantumNode.Node
