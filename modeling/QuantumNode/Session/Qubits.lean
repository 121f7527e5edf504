import QuantumNode.Quantum.Digits
import QuantumNode.Session.Future

/-
  The qubits of a session, and the commands for gates and measurements.
-/

namespace QuantumNode.Session

def qubitRegister (i : Int) : Reg :=
  ⟨.q, i⟩

variable (op : Op) (address : QubitAddress) (q : Nat)

-- Whether a qubit has an address.  A future has to be known for that.
def hasAddress (n : Int) : SessionM Bool := do
  match address with
  | .fixed id => return id = n
  | .stored f => return (← knownValue f) = n

def isTaken (n : Int) : List Nat → SessionM Bool
  | [] => return false
  | q :: rest => do
    if ← hasAddress (← qubitCell q).address n then return true
    isTaken n rest

def freeAddressFrom (qubits : List Nat) : Nat → Int → SessionM Int
  | 0, n => return n
  | tries + 1, n => do
    if ← isTaken n qubits then freeAddressFrom qubits tries (n + 1) else return n

def freeAddress : SessionM Int := do
  let qubits := (← get).allocation.qubits
  freeAddressFrom qubits qubits.length 0

def addressValue : QubitAddress → Value
  | .fixed id => .int id
  | .stored f => .future f

def setAddress (r : Reg) : QubitAddress → SessionM Unit
  | .fixed id => add [command .set [.reg r, .int id]]
  | .stored f => do add (← loadItems r f)

def gate : SessionM Unit := do
  let r := qubitRegister 0
  setAddress r address
  emit op [.reg r]

def twoQubitGate (first second : QubitAddress) : SessionM Unit := do
  let r := qubitRegister 0
  setAddress r first
  let t := qubitRegister 1
  setAddress t second
  emit op [.reg r, .reg t]

def allocateQubit : SessionM Unit := do
  let r := qubitRegister 0
  setAddress r address
  add [command .qalloc [.reg r], command .init [.reg r]]

-- Whether a part of an angle is a number that is not negative.
def isCount : Value → SessionM Bool
  | .future f => do return 0 ≤ (← knownValue f)
  | v =>
    match v.int? with
    | some i => return 0 ≤ i
    | none => return false

def isTemplate : Value → Bool
  | .template _ => true
  | _ => false

def valueText : Value → SessionM String
  | .future f => futureText f
  | v => return v.plainText

-- A rotation by a numerator times pi over a power of two.
def rotation (n d : Value) : SessionM Unit := do
  let fits ← do
    if ← isCount n then isCount d else pure false
  if !fits && !isTemplate n then
    throw (.session (.badAngle (← valueText n) (← valueText d)))
  let r := qubitRegister 0
  setAddress r address
  emit op [.reg r, ← operandOf n, ← operandOf d]

-- A rotation by an angle, which is taken apart into several ones.
def rotationBy (angle : Float) : SessionM Unit := do
  for a in ← Digits.ofRadians angle Digits.defaultTolerance do
    rotation op address (.int a.num) (.int a.exp)

def activate : SessionM Unit := do
  setQubit q { ← qubitCell q with active := true }
  let s ← get
  if !s.allocation.isActive q then
    set { s with allocation := s.allocation.activate q }

def deactivate : SessionM Unit := do
  setQubit q { ← qubitCell q with active := false }
  if (← get).allocation.isActive q then allocate (·.deactivate q)

-- Put a qubit into or out of use, unless it is so already.
def setActive (active : Bool) : SessionM Unit := do
  if (← qubitCell q).active = active then return ()
  if active then activate q else deactivate q

-- Take all qubits out of use, the last one first.
def deactivateAll : SessionM Unit := do
  let s ← get
  set { s with allocation := { s.allocation with qubits := [] } }
  for q in s.allocation.qubits.reverse do
    setActive q false

-- A qubit in use at an address, or at a free one.
def createQubit (allocated : Bool) (info : PairInfo) (address : Option Int) : SessionM Nat := do
  let id ← match address with
    | some id => pure id
    | none => freeAddress
  if allocated then allocateQubit (.fixed id)
  let q ← newQubit ⟨.fixed id, false, info, none⟩
  activate q
  return q

def futureQubit (future : Nat) : SessionM Nat := do
  let q ← newQubit ⟨.stored future, false, .withheld, none⟩
  activate q
  return q

def move (source target : Int) : SessionM Unit := do
  if ← isTaken target (← get).allocation.qubits then throw .unmet
  allocateQubit (.fixed target)
  twoQubitGate .mov (.fixed source) (.fixed target)
  gate .qfree (.fixed source)

-- If the last three items allocate a qubit, the same items with another address.
def readdress? (items : List Item) (address : Int) : Option (List Item) :=
  match items.reverse with
  | .command last :: .command mid :: .command first :: rest =>
    if first.op = .set && mid.op = .qalloc && last.op = .init then
      let first := { first with operands := first.operands.set 1 (.int address) }
      some (rest.reverse ++ [.command first, .command mid, .command last])
    else none
  | _ => none

def freeUpAmong (address : Int) : List Nat → SessionM Unit
  | [] => return ()
  | q :: rest => do
    if ← hasAddress (← qubitCell q).address address then
      let target ← freeAddress
      let items ← takeAll
      match readdress? items target with
      | some items => add items
      | none =>
        add items
        move address target
      setQubit q { ← qubitCell q with address := .fixed target }
    freeUpAmong address rest

def freeUp (address : Int) : SessionM Unit := do
  let s ← get
  if s.hardware.nv then freeUpAmong address s.allocation.qubits

inductive Axis
  | x
  | y
  | z
  deriving DecidableEq

def measureExponent : Int := 4

-- The operands of a measurement along an axis, or after three rotations.
def measurement (qubit outcome : Reg) (axis : Axis) : Option (List Operand) → Command
  | some rotations =>
    .plain .measBasis ([.reg qubit, .reg outcome] ++ rotations ++ [.int measureExponent]) none
  | none =>
    match axis with
    | .x => .plain .measBasis [.reg qubit, .reg outcome, .int 0, .int 24, .int 0,
        .int measureExponent] none
    | .y => .plain .measBasis [.reg qubit, .reg outcome, .int 8, .int 0, .int 0,
        .int measureExponent] none
    | .z => .plain .meas [.reg qubit, .reg outcome] none

-- Commands that bring an outcome to its future, which is a register or an entry.
def keepOutcome (outcome : Reg) : Value → SessionM (List Item)
  | .future f => do
    let cell ← futureCell f
    match cell.place with
    | .entry _ _ =>
      let items ← storeItems outcome f
      modify fun s => { s with allocation := s.allocation.markOutcome outcome false }
      return items
    | .register _ =>
      setFuture f { cell with place := .register (some outcome) }
      modify fun s => { s with allocation := s.allocation.returnRegister outcome }
      return []
  | _ => return []

def measureAt (future : Value) (inPlace : Bool) (axis : Axis)
    (rotations : Option (List Operand)) : SessionM Unit := do
  let s ← get
  match address with
  | .fixed id => if s.hardware.nv && id ≠ 0 then freeUp 0
  | .stored _ => pure ()
  let (outcome, allocation) ← (← get).allocation.newOutcome
  modify fun s => { s with allocation := allocation }
  let r := qubitRegister 0
  setAddress r address
  if let some rs := rotations then
    if rs.length ≠ 3 then throw .malformed
  let command := measurement r outcome axis rotations
  let freeing := if inPlace then [] else [Item.command (.plain .qfree [.reg r] none)]
  let keeping ← keepOutcome outcome future
  add ([.command command] ++ freeing ++ keeping)

def initValue? : Value → SessionM (Option (Option Operand))
  | .none => return some none
  | .future f => do return some (some (← operandOf (.future f)))
  | v => do
    if v.int?.isSome then return some (some (← operandOf v)) else return none

-- The values that an array starts with, if all are numbers or nothing.
def initValues : List Value → SessionM (List (Option Operand))
  | [] => return []
  | v :: rest => do
    match ← initValue? v with
    | some x => return x :: (← initValues rest)
    | none => throw (.session .badArrayValues)

def newArray (length : Value) (init : Option (List Value)) : SessionM HostArray := do
  let s ← get
  let (address, allocation) := s.allocation.newAddress
  set { s with allocation := allocation }
  let line ← currentLine
  let init ← init.mapM initValues
  let length := match init with
    | some values => Value.int values.length
    | none => length
  match length with
  | .int n => if n ≤ 0 then throw (.session (.badLength (← valueText length)))
  | v => if v.int?.getD 0 ≤ 0 then throw (.session (.badLength (← valueText v)))
  let array : HostArray := ⟨address, length.int?.getD 0, init, line⟩
  modify fun s => { s with allocation := s.allocation.returnArray array }
  return array

def arrayOf (length : Int) : SessionM HostArray :=
  newArray (.int length) none

def arrayWith (values : List (Option Int)) : SessionM HostArray :=
  newArray (.int 1) (some (values.map fun
    | some v => .int v
    | none => .none))

-- A register with a first value, which the next subroutine returns.
def newRegister (init : Value) : SessionM Nat := do
  let r ← takeRegister
  emit .set [.reg r, ← operandOf init]
  modify fun s => { s with allocation := s.allocation.returnRegister r }
  registerFuture r

-- Measure a qubit in use; the outcome goes to a future.
def measure (future : Value) (inPlace stored : Bool) (axis : Axis)
    (rotations : Option (List Operand)) : SessionM Value := do
  let cell ← qubitCell q
  if !cell.active then
    throw (.session (.inactiveQubit (← valueText (addressValue cell.address))))
  let future ← match future with
    | .none =>
      if stored then do
        let a ← arrayOf 1
        pure (Value.future (← entryFuture a (.int 0)))
      else do pure (Value.future (← newFuture (.register none)))
    | v => pure v
  measureAt cell.address future inPlace axis rotations
  if !inPlace then setActive q false
  return future

end QuantumNode.Session
