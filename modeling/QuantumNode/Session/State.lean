import QuantumNode.Assembly.Assemble
import QuantumNode.Node.Run

/-
  Sessions: the state in which an application writes programs for its node and sends them. Labels
  differ from each other. An allocation has the qubits, registers and array addresses that are in
  use, and the registers and arrays that the next subroutine returns. Futures, qubits, sockets and
  compiled programs change while the session goes on, so values hold their numbers.
-/

namespace QuantumNode

structure LabelSupply where
  used : List String
  deriving Inhabited

namespace LabelSupply

def empty : LabelSupply := ⟨[]⟩

variable (s : LabelSupply)

-- A name and then the name with each number from one on. One more name than there are used labels,
-- so one of them is free.
def candidates (name : String) : List String :=
  name :: (List.range s.used.length).map fun i => name ++ toString (i + 1)

-- The first candidate that is not used.
def next (name : String) : String :=
  ((s.candidates name).find? fun c => !s.used.contains c).getD name

def fresh (name : String) : String × LabelSupply :=
  let label := s.next name
  (label, ⟨label :: s.used⟩)

def freshAll : LabelSupply → List String → List String
  | _, [] => []
  | s, name :: rest =>
    let (label, s) := s.fresh name
    label :: freshAll s rest

end LabelSupply

-- What is in use. Qubits are named by handles: two qubits may have the same address and are still
-- different.
structure Allocation (α : Type) where
  qubits : List Nat
  registers : List Reg
  outcomes : Table Reg Bool
  returnedRegisters : List Reg
  addresses : List Int
  returnedArrays : List α
  deriving Inhabited

namespace Allocation
variable {α : Type} (a : Allocation α)

def freshOutcomes : Table Reg Bool :=
  (Reg.ofBank .m).map fun r => (r, false)

def empty : Allocation α := ⟨[], [], freshOutcomes, [], [], []⟩

def firstFree (taken : List Int) : Int :=
  match (List.range (taken.length + 1)).find? fun n => !taken.contains (Int.ofNat n) with
  | some n => n
  | none => 0

def isActive (qubit : Nat) : Bool :=
  a.qubits.contains qubit

def activate (qubit : Nat) : Allocation α :=
  { a with qubits := a.qubits ++ [qubit] }

def deactivate (qubit : Nat) : Checked (Allocation α) :=
  if a.isActive qubit then .ok { a with qubits := a.qubits.erase qubit }
  else .error .malformed

def isUsed (r : Reg) : Bool :=
  a.registers.contains r

def occupy (r : Reg) : Checked (Allocation α) :=
  if a.isUsed r then .error (.session (.registerActive r.text))
  else .ok { a with registers := a.registers ++ [r] }

def release (r : Reg) : Checked (Allocation α) :=
  if a.isUsed r then .ok { a with registers := a.registers.erase r }
  else .error .noKey

def inactive : Checked Reg :=
  match (Reg.ofBank .r).find? fun r => !a.isUsed r with
  | some r => .ok r
  | none => .error (.session .noRegister)

def sortedRegisters : List Reg :=
  a.registers.mergeSort fun x y =>
    if x.bank = y.bank then x.index ≤ y.index else x.bank.code ≤ y.bank.code

def markOutcome (r : Reg) (used : Bool) : Allocation α :=
  { a with outcomes := Table.put r used a.outcomes }

def newOutcome : Checked (Reg × Allocation α) :=
  match a.outcomes.find? fun (_, used) => !used with
  | some (r, _) => .ok (r, a.markOutcome r true)
  | none => .error (.session .noOutcomeRegister)

def usedOutcomes : List Reg :=
  (a.outcomes.filter Prod.snd).map Prod.fst

def newAddress : Int × Allocation α :=
  let address := match a.addresses.getLast? with
    | some last => last + 1
    | none => 0
  (address, { a with addresses := a.addresses ++ [address] })

def returnRegister (r : Reg) : Allocation α :=
  { a with returnedRegisters := a.returnedRegisters ++ [r] }

def returnArray (array : α) : Allocation α :=
  { a with returnedArrays := a.returnedArrays ++ [array] }

-- Nothing is left to be returned. Qubits, registers and addresses stay in use.
def reset : Allocation α :=
  { a with returnedArrays := [], returnedRegisters := [], outcomes := freshOutcomes }

end Allocation

-- An array of the application, with the values it starts with.
structure HostArray where
  address : Int
  length : Int
  init : Option (List (Option Operand))
  line : Option HostLine

-- What is known about a pair that is kept: the numbers of four futures.
structure KeepResult where
  qubit : Nat
  remoteNode : Nat
  duration : Nat
  bell : Nat
  deriving DecidableEq

-- What is known about a pair that is measured. The bases are given by three rotations each; an
-- outcome may have to be corrected for the Bell state of the pair.
structure MeasureResult where
  outcome : Nat
  localBasis : List Int
  remoteBasis : List Int
  corrected : Bool
  remoteNode : Nat
  duration : Nat
  bell : Nat
  deriving DecidableEq

inductive Value
  | none
  | bool (b : Bool)
  | int (v : Int)
  | float (x : Float)
  | text (s : String)
  | reg (r : Reg)
  | template (name : String)
  | future (id : Nat)
  | array (a : HostArray)
  | qubit (id : Nat)
  | list (items : List Value)
  | record (fields : List (String × Value))
  | pairInfo (futures : List Nat)
  | keep (r : KeepResult)
  | measured (r : MeasureResult)
  | socket (id : Nat)
  | draft (d : Draft)
  | program (id : Nat)
  | session
  deriving Inhabited

namespace Value

def typeName : Value → String
  | none => "NoneType"
  | bool _ => "bool"
  | int _ => "int"
  | float _ => "float"
  | text _ => "str"
  | reg _ => "netqasm.lang.operand.Register"
  | template _ => "netqasm.lang.operand.Template"
  | future _ => "netqasm.sdk.futures.Future"
  | array _ => "netqasm.sdk.futures.Array"
  | qubit _ => "netqasm.sdk.qubit.Qubit"
  | list _ => "list"
  | record _ => "dict"
  | pairInfo _ => "netqasm.qlink_compat.LinkLayerOKTypeK"
  | keep _ => "netqasm.sdk.build_epr.EprKeepResult"
  | measured _ => "netqasm.sdk.build_epr.EprMeasureResult"
  | socket _ => "netqasm.sdk.epr_socket.EPRSocket"
  | draft _ => "netqasm.lang.ir.ProtoSubroutine"
  | program _ => "netqasm.lang.subroutine.Subroutine"
  | session => "netqasm.sdk.connection.DebugConnection"

def typeText (v : Value) : String :=
  "<class '" ++ v.typeName ++ "'>"

def flagText (b : Bool) : String :=
  if b then "True" else "False"

def plainText : Value → String
  | none => "None"
  | bool b => flagText b
  | int v => toString v
  | float x => Text.Shortest.text x
  | text s => s
  | reg r => r.text
  | template name => name
  | _ => ""

-- The number that a value is; a flag is a number too.
def int? : Value → Option Int
  | int v => some v
  | bool b => some (if b then 1 else 0)
  | _ => Option.none

end Value

-- The qubits of a node: those that can be entangled with other nodes and those that cannot.
structure Hardware where
  nv : Bool
  communication : Int
  storage : Int
  deriving DecidableEq, Inhabited

namespace Hardware

def qubits (h : Hardware) : Int :=
  h.communication + h.storage

def check (h : Hardware) : Checked Hardware := do
  demand (0 < h.communication) .unmet
  demand (0 ≤ h.storage) .unmet
  return h

def generic (n : Int) : Checked Hardware :=
  check ⟨false, n, 0⟩

-- Hardware on which only the first qubit can be entangled.
def nitrogenVacancy (n : Int) : Checked Hardware :=
  check ⟨true, 1, n - 1⟩

end Hardware

-- Where a value will be: an entry of an array or a register.
inductive Place
  | entry (address : Int) (index : Value)
  | register (r : Option Reg)
  deriving Inhabited

-- A value that is known once its subroutine has run.
structure FutureCell where
  place : Place
  known : Option Int
  deriving Inhabited

-- The address of a qubit, which may itself be a future.
inductive QubitAddress
  | fixed (id : Int)
  | stored (future : Nat)
  deriving DecidableEq, Inhabited

-- The pair that a qubit is half of; for some qubits it cannot be asked.
inductive PairInfo
  | nothing
  | known (futures : List Nat)
  | withheld
  deriving DecidableEq, Inhabited

structure QubitCell where
  address : QubitAddress
  active : Bool
  info : PairInfo
  remoteName : Option String
  deriving DecidableEq, Inhabited

structure PairSocket where
  remote : String
  id : Int
  remoteId : Int
  minFidelity : Int
  connected : Bool
  remoteNode : Option Int
  deriving DecidableEq, Inhabited

-- What was pending before a block, and the register the block counts in.
structure Context where
  before : List Item
  register : Option Reg

-- The identifiers of open applications by name, and the names of applications by node and
-- identifier.
structure Registry where
  ids : Table String (List Int)
  names : Table String (Table Int String)
  deriving Inhabited

structure Session where
  app : String
  node : String
  appId : Int
  hardware : Hardware
  mapped : Bool
  returnsArrays : Bool
  nodeIds : List (String × Int)
  pending : List Item
  allocation : Allocation HostArray
  labels : LabelSupply
  nextContext : Nat
  contexts : Table Nat Context
  futures : Array FutureCell
  qubits : Array QubitCell
  programs : Array Subroutine
  committed : List Nat
  sockets : Array PairSocket
  tracker : Option Tracker
  frames : List HostLine
  registry : Registry
  backend : Option Node
  memory : Option Nat
  sent : List Bytes
  deriving Inhabited

-- Operations of a session. A refused operation leaves the state that it had reached.
abbrev SessionM := ExceptT Fault (StateM Session)

namespace Session

def currentLine : SessionM (Option HostLine) := do
  let s ← get
  match s.tracker with
  | none => return none
  | some t => return some (← t.find s.frames)

-- An item with a line, unless it has one.
def withLine (line : Option HostLine) : Item → Item
  | .command c => .command { c with line := c.line.or line }
  | .label name l => .label name (l.or line)

def add (items : List Item) : SessionM Unit := do
  let line ← currentLine
  modify fun s => { s with pending := s.pending ++ items.map (withLine line) }

-- Add one item; the line is looked up only if the item has none.
def addOne (item : Item) : SessionM Unit := do
  let line ← if item.line.isNone then currentLine else pure none
  modify fun s => { s with pending := s.pending ++ [withLine line item] }

def emit (op : Op) (operands : List Operand) : SessionM Unit :=
  addOne (command op operands)

def takeAll : SessionM (List Item) := do
  let s ← get
  set { s with pending := [] }
  return s.pending

def allocate (f : Allocation HostArray → Checked (Allocation HostArray)) : SessionM Unit := do
  let s ← get
  let a ← f s.allocation
  set { s with allocation := a }

def freeRegister : SessionM Reg := do
  (← get).allocation.inactive

def takeRegister : SessionM Reg := do
  let r ← freeRegister
  allocate (·.occupy r)
  return r

def release (r : Reg) : SessionM Unit :=
  allocate (·.release r)

def releaseAll (rs : List Reg) : SessionM Unit :=
  rs.forM release

def freshLabel (name : String) : SessionM String := do
  let s ← get
  let (label, supply) := s.labels.fresh name
  set { s with labels := supply }
  return label

def newFuture (place : Place) : SessionM Nat := do
  let s ← get
  set { s with futures := s.futures.push ⟨place, none⟩ }
  return s.futures.size

def registerFuture (r : Reg) : SessionM Nat :=
  newFuture (.register (some r))

def entryFuture (a : HostArray) (index : Value) : SessionM Nat :=
  newFuture (.entry a.address index)

variable (id : Nat)

def futureCell : SessionM FutureCell := do
  return (← get).futures.getD id default

def setFuture (cell : FutureCell) : SessionM Unit :=
  modify fun s => { s with futures := s.futures.setIfInBounds id cell }

def qubitCell : SessionM QubitCell := do
  return (← get).qubits.getD id default

def setQubit (cell : QubitCell) : SessionM Unit :=
  modify fun s => { s with qubits := s.qubits.setIfInBounds id cell }

def newQubit (cell : QubitCell) : SessionM Nat := do
  let s ← get
  set { s with qubits := s.qubits.push cell }
  return s.qubits.size

def socketAt : SessionM PairSocket := do
  return (← get).sockets.getD id default

def programAt : SessionM Subroutine := do
  return (← get).programs.getD id default

def newProgram (p : Subroutine) : SessionM Nat := do
  let s ← get
  set { s with programs := s.programs.push p }
  return s.programs.size

def setProgram (p : Subroutine) : SessionM Unit :=
  modify fun s => { s with programs := s.programs.setIfInBounds id p }

end Session

end QuantumNode
