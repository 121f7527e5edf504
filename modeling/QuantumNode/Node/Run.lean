import QuantumNode.Message.Return
import QuantumNode.Node.State

/-
  How a node runs a subroutine: the effect of single instructions, the log of what is executed, and
  the messages of its host that it handles.
-/

namespace QuantumNode.Node

abbrev Reader := Int → Operand → NodeM (Option Int)

def ofRegister : Reader
  | app, .reg r => getReg app r
  | _, _ => throw .noAttribute

variable (read : Reader) (sub : Nat) (app : Int)

def demandValue (o : Operand) : NodeM Int := do
  match ← read app o with
  | some v => return v
  | none => throw .unmet

def numberOf (o : Operand) : Checked Int :=
  match o.number? with
  | some v => .ok v
  | none => .error .noAttribute

def compute (op : Op) (a b : Int) (modulus : Option Int) : Checked Int :=
  match op, modulus with
  | .add, _ => .ok (a + b)
  | .sub, _ => .ok (a - b)
  | .addm, some m => .ok (Int.fmod (a + b) m)
  | .subm, some m => .ok (Int.fmod (a - b) m)
  | _, _ => .error .unmet

def checkModulus : Option Int → Checked Unit
  | some m => demand (1 ≤ m) (.node (.modulus m))
  | none => .ok ()

def arithmetic (op : Op) (out : Reg) (a b : Operand) (modulus : Option Int) : NodeM Unit := do
  checkModulus modulus
  let x ← read app a
  let y ← read app b
  match x, y with
  | some x, some y => setReg app out (← compute op x y modulus)
  | _, _ => throw .unmet

-- The entries of a slice, which all have to become defined.
def allDefined (address : Int) (slice : Slice) : NodeM Bool := do
  match ← readSlice app address slice with
  | none => throw (.node .sliceNotAList)
  | some values => return values.all Option.isSome

-- The entries of a slice, one of which has to become defined.
def anyDefined (address : Int) (start stop : Index) : NodeM Bool := do
  match ← readSlice app address (← evalSlice app start stop) with
  | none => throw (.node (.noSlice (Operand.slice address start stop).text))
  | some values => return values.any Option.isSome

-- The next outcome of a measurement; zero if none is given.
def nextOutcome : NodeM Int := do
  let s ← get
  match s.outcomes with
  | [] => return 0
  | v :: rest =>
    set { s with outcomes := rest }
    return v

def measure (qubit : Operand) (out : Reg) : NodeM Int := do
  let address ← demandValue read app qubit
  let outcome ← nextOutcome
  emit (.measured address outcome)
  setReg app out outcome
  return outcome

def createFrom (remote socket qubits args results : Operand) : NodeM Unit := do
  let remote ← read app remote
  let socket ← read app socket
  let qubits ← read app qubits
  let args ← read app args
  let results ← read app results
  match remote, socket, args, results with
  | some remote, some socket, some args, some results =>
    createPairs sub app remote socket qubits args results
  | _, _, _, _ => throw .unmet

def recvFrom (remote socket qubits results : Operand) : NodeM Unit := do
  let remote ← read app remote
  let socket ← read app socket
  let qubits ← read app qubits
  let results ← read app results
  match remote, socket, results with
  | some remote, some socket, some results =>
    recvPairs sub app remote socket qubits results
  | _, _, _ => throw .unmet

def unknown (family : Family) (op : Op) : NodeM (Option Int) :=
  throw (.node (.unknownInstr (family.name ++ "." ++ op.label ++ "Instruction")))

-- The effect of an instruction that does not branch, with its values looked up in a given way; a
-- measurement gives its outcome.
def performWith (family : Family) (op : Op) (operands : List Operand) : NodeM (Option Int) := do
  match op, operands with
  | .set, [.reg r, n] =>
    setReg (← appOf sub) r (← numberOf n)
    return none
  | .lea, [.reg r, .addr a] =>
    setReg (← appOf sub) r a
    return none
  | .qalloc, [q] =>
    match ← read (← appOf sub) q with
    | none => throw (.node (.qubitAddressUndefined q.text))
    | some address => return some (← allocate sub address none)
  | .qfree, [q] =>
    free sub (← demandValue read (← appOf sub) q)
    return none
  | .store, [r, .entry a i] =>
    let app ← appOf sub
    match ← read app r with
    | none => throw (.node (.registerUndefined r.text))
    | some v => writeEntry app a i (some v)
    return none
  | .load, [.reg r, .entry a i] =>
    let app ← appOf sub
    match ← readEntry app a i with
    | none => throw (.node (.entryUndefined (Operand.entry a i).text))
    | some v => setReg app r v
    return none
  | .undef, [.entry a i] =>
    writeEntry (← appOf sub) a i none
    return none
  | .array, [r, .addr a] =>
    let app ← appOf sub
    createArray app a (← demandValue read app r)
    return none
  | .add, [.reg out, a, b] =>
    arithmetic read (← appOf sub) op out a b none
    return none
  | .sub, [.reg out, a, b] =>
    arithmetic read (← appOf sub) op out a b none
    return none
  | .addm, [.reg out, a, b, m] =>
    let app ← appOf sub
    arithmetic read app op out a b (← read app m)
    return none
  | .subm, [.reg out, a, b, m] =>
    let app ← appOf sub
    arithmetic read app op out a b (← read app m)
    return none
  | .meas, [q, .reg c] => return some (← measure read (← appOf sub) q c)
  | .createEpr, [n, k, q, a, e] =>
    createFrom read sub (← appOf sub) n k q a e
    return none
  | .recvEpr, [n, k, q, e] =>
    recvFrom read sub (← appOf sub) n k q e
    return none
  | .waitAll, [.slice a lo hi] =>
    let app ← appOf sub
    let slice ← evalSlice app lo hi
    waitUntil (allDefined app a slice)
    return none
  | .waitAny, [.slice a lo hi] =>
    let app ← appOf sub
    waitUntil (anyDefined app a lo hi)
    return none
  | .waitSingle, [.entry a i] =>
    let app ← appOf sub
    waitUntil (do return (← readEntry app a i).isSome)
    return none
  | .retReg, [.reg r] =>
    let app ← appOf sub
    match ← getReg app r with
    | none => throw (.node (.returnUndefined r.text))
    | some v => returnReg app r v
    return none
  | .retArr, [.addr a] =>
    returnArray (← appOf sub) a
    return none
  | .measBasis, _ => unknown family op
  | .breakpoint, _ => unknown family op
  | _, [q] =>
    emit (.single op (← demandValue read (← appOf sub) q))
    return none
  | _, [q, r] =>
    let app ← appOf sub
    let first ← read app q
    let second ← read app r
    match first, second with
    | some a, some b =>
      emit (.double op a b)
      return none
    | _, _ => throw .unmet
  | _, [q, n, d] =>
    let app ← appOf sub
    let address ← demandValue read app q
    emit (.rotation op address (← Gate.angleOf n d))
    return none
  | _, [q, r, n, d] =>
    let app ← appOf sub
    let first ← read app q
    let second ← read app r
    match first, second with
    | some a, some b =>
      emit (.controlled op a b (← Gate.angleOf n d))
      return none
    | _, _ => throw .unmet
  | _, _ => unknown family op

-- The effect of an instruction that does not branch.
def perform (family : Family) (op : Op) (operands : List Operand) : NodeM (Option Int) :=
  performWith ofRegister sub family op operands

def forks? : Op → List Operand → Option (List Operand × Operand)
  | .jmp, [t] => some ([], t)
  | .bez, [a, t] | .bnz, [a, t] => some ([a], t)
  | .beq, [a, b, t] | .bne, [a, b, t] | .blt, [a, b, t] | .bge, [a, b, t] => some ([a, b], t)
  | _, _ => none

def readAll (read : Reader) (app : Int) : List Operand → NodeM (List (Option Int))
  | [] => return []
  | o :: rest => do
    let v ← read app o
    return v :: (← readAll read app rest)

def takenWith (op : Op) (compared : List Operand) : NodeM Bool := do
  let values ← readAll read (← appOf sub) compared
  if op = .jmp then return true else op.condition values

def branchTo (line : Int) (taken : Bool) (target : Operand) : Int :=
  if taken then target.number?.getD (line + 1) else line + 1

def execute (line : Int) : Instr → NodeM (Int × Option Int)
  | .note _ => throw (.node (.unknownInstr "base.DebugInstruction"))
  | .op family op operands _ => do
    match forks? op operands with
    | some (compared, target) =>
      return (branchTo line (← takenWith ofRegister sub op compared) target, none)
    | none =>
      let output ← perform sub family op operands
      return (line + 1, output)

def operandValue : Operand → NodeM (Option Int)
  | .reg r => getReg app r
  | .entry a i => readEntry app a i
  | .int v => return some v
  | _ => return none

def operandText (o : Operand) : NodeM String := do
  match ← operandValue app o with
  | some v => return o.text ++ "=" ++ toString v
  | none => return o.text ++ "=None"

def operandTexts (app : Int) : List Operand → NodeM (List String)
  | [] => return []
  | o :: rest => do
    let word ← operandText app o
    return word :: (← operandTexts app rest)

def qubitsOfArray (r : Reg) : NodeM Block := do
  if r.bank = .c then return []
  match ← getReg app r with
  | none => do
    let _ ← arraysOf app
    throw (.node .noArrayAddress)
  | some address =>
    let block ← Arrays.block (← arraysOf app) address
    return (← get).heap.get block

def qubitRegisters (app : Int) : List Operand → NodeM Block
  | [] => return []
  | .reg r :: rest => do
    if r.bank = .q then
      let v ← getReg app r
      return v :: (← qubitRegisters app rest)
    else qubitRegisters app rest
  | _ :: rest => qubitRegisters app rest

def qubitsOf (op : Op) (operands : List Operand) : NodeM Block :=
  match op, operands with
  | .createEpr, _ :: _ :: .reg r :: _ => qubitsOfArray app r
  | .recvEpr, _ :: _ :: .reg r :: _ => qubitsOfArray app r
  | _, _ => qubitRegisters app operands

def physicalAt (address : Int) : NodeM (Option Int) :=
  tryCatch (do return some (← positionOf app address)) fun f =>
    if f.category = .unallocated then return none else throw f

def physicalOf (app : Int) : Block → NodeM (List (Int × Option Int))
  | [] => return []
  | none :: _ => do
    let _ ← unitOf app
    throw .mistyped
  | some v :: rest => do
    let p ← physicalAt app v
    return (v, p) :: (← physicalOf app rest)

def trackedLe (a b : String × Int × Int) : Bool :=
  if a.1 ≠ b.1 then a.1 < b.1
  else if a.2.1 ≠ b.2.1 then a.2.1 < b.2.1
  else a.2.2 ≤ b.2.2

def track (op : Op) (ids : List (String × Int × Int))
    (tracked : List (String × Int × Int)) : List (String × Int × Int) :=
  match op with
  | .init | .createEpr | .recvEpr =>
    ids.foldl (fun t id => if t.contains id then t else t ++ [id]) tracked
  | .qfree | .meas => ids.foldl List.erase tracked
  | _ => tracked

def isSilent : Op → Bool
  | .set | .qalloc | .qfree | .createEpr | .recvEpr => true
  | _ => false

def logAngle (op : Op) (operands : List Operand) : Option Angle :=
  match op, operands with
  | .rotX, [_, n, d] | .rotY, [_, n, d] | .rotZ, [_, n, d]
  | .crotX, [_, _, n, d] | .crotY, [_, _, n, d] | .crotZ, [_, _, n, d] => do
    return ⟨← n.number?, ← d.number?⟩
  | _, _ => none

def recordOp (line : Int) (op : Op) (operands : List Operand)
    (output : Option Int) : NodeM Unit := do
  let app ← appOf sub
  let words ← operandTexts app operands
  let qubits ← physicalOf app (← qubitsOf app op operands)
  if (← get).logger = .bare then throw (.unexplained .unimplemented)
  modify fun s => { s with
    tracked := track op (qubits.map fun (v, _) => (s.name, app, v)) s.tracked }
  if isSilent op ∨ qubits.isEmpty then return ()
  let entry : LogEntry := {
    appId := app
    subroutine := sub
    counter := line
    instr := op.name
    operands := words
    angle := logAngle op operands
    virtualQubits := qubits.map Prod.fst
    physicalQubits := qubits.map Prod.snd
    outcome := if op = .meas then output else none
    group := (← get).tracked.mergeSort trackedLe
    words := "Doing instruction " ++ op.name ++ " with operands " ++ Text.Quoted.list words }
  modify fun s => { s with log := s.log ++ [entry] }

def record (line : Int) (i : Instr) (output : Option Int) : NodeM Unit := do
  match (← get).logger, i with
  | .off, _ => return ()
  | _, .op _ op operands _ => recordOp sub line op operands output
  | _, .note _ => return ()

-- The instruction at a line; negative lines count from the end.
def fetch (instrs : Array Instr) (line : Int) : NodeM Instr :=
  match (place? instrs.size line).bind fun p => instrs[p]? with
  | some i => return i
  | none => throw .noIndex

def step (line : Int) (i : Instr) : NodeM Int := do
  let (next, output) ← execute sub line i
  record sub line i output
  return next

def setBudget (limit : Nat) : NodeM Unit :=
  modify fun s => { s with budget := limit }

def giveUp {α : Type} (limit : Nat) (f : Fault) : NodeM α := do
  setBudget limit
  throw f

-- Run from a line until a line behind the last one. The number of instructions that may run is
-- limited.
def runFrom (sub : Nat) (instrs : Array Instr) : Nat → Int → NodeM Unit
  | limit, line => do
    if (instrs.size : Int) ≤ line then setBudget limit
    else
      let i ← tryCatch (fetch instrs line) (giveUp limit)
      match limit with
      | 0 => giveUp 0 (.atLine line (.unexplained .stepLimit))
      | limit + 1 =>
        let next ← tryCatch (step sub line i) fun f => giveUp limit (.atLine line f)
        runFrom sub instrs limit next

-- Run a subroutine under a number of its own. A subroutine that has run to its end is forgotten.
def run (s : Subroutine) : NodeM Unit := do
  let node ← get
  let sub := node.nextSubroutine
  set { node with
    nextSubroutine := sub + 1
    subroutines := Table.put sub s.appId node.subroutines }
  runFrom sub s.instrs.toArray node.budget 0
  modify fun n => { n with subroutines := Table.erase sub n.subroutines }

def openSocket (id remoteNode remoteId : Int) : NodeM Unit := do
  if (← get).hasStack then emit (.socket id remoteNode remoteId)

def stopSignal : Int := 0

def handle : HostMessage → NodeM Unit
  | .initApp app maxQubits => do
    modify fun s => { s with active := if s.active.contains app then s.active else s.active ++ [app] }
    initApp app maxQubits
  | .openSocket _ id remote remoteId _ => openSocket id remote remoteId
  | .subroutine payload => do
    run (← Subroutine.decode (← get).flavour payload)
  | .stopApp app => do
    let s ← get
    if !s.active.contains app then throw .noKey
    set { s with active := s.active.erase app }
    stopApp app
  | .signal code =>
    if code = stopSignal then modify fun s => { s with finished := true }
    else throw .malformed

-- Carry out a message; a finished node stops afterwards.
def deliver (m : HostMessage) : NodeM Unit := do
  handle m
  if (← get).finished then modify fun s => { s with stopped := true }

end QuantumNode.Node
