import QuantumNode.Node.Run
import QuantumNode.Scenario.Data

/-
  Scenarios on shared memories and on a node: steps of a host and of the network, with the current
  memory, or with events, log and state after each step.
-/

namespace QuantumNode.Scenario

def blockReport (b : Block) : Report :=
  .list (b.map Report.option)

def registersReport (regs : Registers) : Report :=
  .record (regs.map fun (r, v) => (r.text, .option v))

def arraysReport (heap : Heap) (arrays : Arrays) : Report :=
  .record (arrays.map fun (address, n) => (toString address, blockReport (heap.get n)))

def memoryReport (heap : Heap) (m : SharedMemory) : Report :=
  .record [("regs", registersReport m.registers), ("arrays", arraysReport heap m.arrays)]

variable (hardware : Bool) (d : Datum)

def storePart (heap : Heap) (arrays : Arrays) (address : Int)
    (index value : Datum) : Checked Heap := do
  Block.checkWidth hardware address
  match index, sliceOf? index with
  | .int i, _ =>
    match value with
    | .int v => Arrays.writeAt hardware heap arrays address i (some v)
    | .null => Arrays.writeAt hardware heap arrays address i none
    | _ => throw .mistyped
  | _, some s =>
    match value with
    | .list _ => Arrays.writeSlice hardware heap arrays address s (blockOf value)
    | other => throw (.node (.notAList other.typeText))
  | .text t, _ =>
    let shown := Text.Quoted.quote t
    throw (.node (.badKey s!"({address}, {shown})"))
  | _, _ => throw (.node (.badKey s!"({address}, None)"))

def loadPart (heap : Heap) (arrays : Arrays) (address : Int) (index : Datum) : Checked Report := do
  match index, sliceOf? index with
  | .int i, _ => return .option (← Arrays.readAt hardware heap arrays address i)
  | _, some s =>
    match ← Arrays.readSlice hardware heap arrays address s with
    | some b => return blockReport b
    | none => return .null
  | _, _ =>
    Block.checkWidth hardware address
    if Table.has address arrays then throw .mistyped else return .null

def rowLength : Datum → Checked Int
  | .list items => .ok items.length
  | .text s => .ok s.length
  | .table entries => .ok entries.length
  | _ => .error .mistyped

-- Make a new array, with the given entries if there are any. The array is made before its entries
-- are looked at.
def newArray (heap : Heap) (arrays : Arrays) (address length : Int)
    (row : Datum) : Except Fault (Heap × Arrays × Except Fault Unit) := do
  if row.isNull then
    let (heap, arrays) ← Arrays.create hardware heap arrays address length
    return (heap, arrays, .ok ())
  let (heap, arrays) ← Arrays.create hardware heap arrays address (← rowLength row)
  match row with
  | .list _ =>
    match Block.checkRow hardware (blockOf row) with
    | .error f => return (heap, arrays, .error f)
    | .ok () =>
      let (heap, n) := heap.alloc (blockOf row)
      return (heap, Table.put address n arrays, .ok ())
  | other => return (heap, arrays, .error (.node (.notAList other.typeText)))

-- Memories and the one that steps work on.
structure MemoryDesk where
  hardware : Bool
  heap : Heap
  bank : MemoryBank
  current : Nat

abbrev MemoryM := ExceptT Fault (StateM MemoryDesk)

def currentMemory : MemoryM SharedMemory := do
  let s ← get
  return s.bank.get s.current

def setMemory (m : SharedMemory) : MemoryM Unit :=
  modify fun s => { s with bank := s.bank.set s.current m }

def namedMemory : String × Option Int :=
  (textField d "node", (d.field "key").int?)

def memoryStep : MemoryM Report := do
  let s ← get
  let m ← currentMemory
  let address := intField d "address" 0
  match textField d "do" with
  | "create" =>
    let (node, key) := namedMemory d
    let (bank, n) ← s.bank.create node key
    set { s with bank := bank, current := n }
    return .null
  | "get_memory" =>
    let (node, key) := namedMemory d
    match s.bank.find? node key with
    | some n =>
      set { s with current := n }
      return .bool true
    | none => return .bool false
  | "reset" =>
    set { s with bank := s.bank.reset }
    return .null
  | "set_reg" =>
    let r ← regOf (d.field "reg")
    setMemory (← m.setRegister s.hardware r (d.field "value").int?)
    return .null
  | "get_reg" => return .option (← m.registers.get (← regOf (d.field "reg")))
  | "item_reg" => return .option (← m.registers.get (← regOf (d.field "reg")))
  | "new_array" =>
    let (heap, arrays, outcome) ←
      newArray s.hardware s.heap m.arrays address (intField d "length" 1) (d.field "new_array")
    set { s with heap := heap }
    setMemory { m with arrays := arrays }
    outcome
    return .null
  | "set" =>
    let heap ← storePart s.hardware s.heap m.arrays address (d.field "index") (d.field "value")
    set { s with heap := heap }
    return .null
  | "get" => loadPart s.hardware s.heap m.arrays address (d.field "index")
  | "item" => loadPart s.hardware s.heap m.arrays address (d.field "index")
  | "item_array" => return blockReport (s.heap.get (← Arrays.block m.arrays address))
  | "has" => return .bool (Table.has address m.arrays)
  | "bad_key" =>
    match d.field "key" with
    | .list [.int a, i] => loadPart s.hardware s.heap m.arrays a i
    | _ => throw (.node .wholeArray)
  | "active" =>
    let regs := m.registers.defined.map fun (r, v) => (r.text, v)
    return .list ((regs ++ Arrays.defined s.heap m.arrays).map fun (k, v) =>
      .list [.text k, .int v])
  | "str" => return .text (Arrays.text s.heap m.arrays)
  | _ => throw .mistyped

def memoryStepReport (desk : MemoryDesk) (d : Datum) : Report × MemoryDesk :=
  let (result, desk) := (memoryStep d).run desk
  (.outcome result [("state", memoryReport desk.heap (desk.bank.get desk.current))], desk)

def memorySteps : MemoryDesk → List Datum → List Report
  | _, [] => []
  | desk, d :: rest =>
    let (report, desk) := memoryStepReport desk d
    report :: memorySteps desk rest

def runMemory : Report :=
  let (bank, n) := MemoryBank.empty.alloc
  .record [("steps", .list (memorySteps ⟨flagField d "hardware", .empty, bank, n⟩
    (d.field "steps").items))]

def radians (a : Angle) : Report :=
  .datum (.float a.radians)

def eventReport : Event → Report
  | .single op q => .list [.text op.name, .int q]
  | .rotation op q a => .list [.text op.name, .int q, radians a]
  | .double op a b => .list [.text op.name, .int a, .int b]
  | .controlled op a b angle => .list [.text op.name, .int a, .int b, radians angle]
  | .measured q outcome => .list [.text "meas", .int q, .int outcome]
  | .request r => .list (.text "put" :: r.fields.map fun (_, v) => linkReport v)
  | .socket id remote remoteId => .list [.text "socket", .int id, .int remote, .int remoteId]

def denominator (a : Angle) : Report :=
  if 0 ≤ a.exp then .int (Nat.pow 2 a.exp.toNat) else .plain (.float (Float.scaleB 1.0 a.exp))

def logReport (e : LogEntry) : Report :=
  .record [("AID", .int e.appId), ("ANG", match e.angle with
      | some a => .record [("num", .int a.num), ("den", denominator a)]
      | none => .null),
    ("HFL", .null), ("HLN", .null), ("INS", .text e.instr), ("LOG", .text e.words),
    ("OPR", .texts e.operands), ("OUT", .option e.outcome), ("PRC", .int e.counter),
    ("QGR", .record (e.group.zipIdx.map fun ((node, app, qubit), i) =>
      (toString i, .list [.text node, .int app, .int qubit]))),
    ("QID", .list (e.virtualQubits.map Report.int)), ("SID", .int e.subroutine),
    ("SIT", .int 0), ("VID", .list (e.physicalQubits.map Report.option))]

def appReport (s : Node) (app : Int) (unit : Block) : Report :=
  .record [("qubits", blockReport unit), ("regs", match Table.get? app s.registers with
      | some regs => registersReport regs
      | none => .null),
    ("arrays", match Table.get? app s.arrays with
      | some arrays => arraysReport s.heap arrays
      | none => .null),
    ("shared", match Table.get? app s.shared with
      | some n => memoryReport s.heap (s.bank.get n)
      | none => .null)]

def tasksReport (tasks : Table PairKey (List PairTask)) : Report :=
  let busy := tasks.filter fun (_, ts) => !ts.isEmpty
  let sorted := busy.mergeSort fun a b =>
    if a.1.1 = b.1.1 then a.1.2 ≤ b.1.2 else a.1.1 < b.1.1
  .list (sorted.map fun (key, ts) =>
    .list [.list [.int key.1, .int key.2],
      .list (ts.map fun t => .list [.int t.total, .int t.left])])

def sortedInts (xs : List Int) : Report :=
  .list ((xs.mergeSort fun a b => a ≤ b).map Report.int)

def stateReport (s : Node) : Report :=
  .record [("apps", .record (s.units.map fun (app, unit) => (toString app, appReport s app unit))),
    ("physical", sortedInts s.used),
    ("create", tasksReport s.createTasks), ("recv", tasksReport s.recvTasks),
    ("pending", .int s.pending.length)]

def subroutineOf (flavour : Flavour) (d : Datum) : Checked Subroutine := do
  let s ← match d.field? "hex" with
    | some h => Subroutine.decode flavour (bytesOf h)
    | none => Assembly.ofText .full flavour (textField d "text")
  let s := match (d.field "app").int? with
    | some app => { s with appId := some app }
    | none => s
  if flagField d "encode" then Subroutine.decode flavour (← s.encode) else return s

def updateStep (app : Int) (entry : Operand) (value : Datum) : NodeM Unit := do
  let n ← Node.sharedOf app
  let s ← get
  let m := s.bank.get n
  match entry with
  | .reg r =>
    match value with
    | .int v => Node.updateShared n (← m.setRegister s.hardware r (some v))
    | .bool b =>
      Node.updateShared n (← m.setRegister s.hardware r (some (if b then 1 else 0)))
    | _ => throw .unmet
  | .entry a i =>
    let place ← Node.evalIndex app i
    let heap ← storePart s.hardware s.heap m.arrays a (.int place) value
    set { s with heap := heap }
  | .slice a lo hi =>
    let lo ← Node.evalIndex app lo
    let hi ← Node.evalIndex app hi
    let heap ← storePart s.hardware s.heap m.arrays a (.list [.int lo, .int hi]) value
    set { s with heap := heap }
  | .addr a =>
    let (heap, arrays, outcome) ← newArray s.hardware s.heap m.arrays a 1 value
    set { s with heap := heap }
    Node.updateShared n { m with arrays := arrays }
    outcome
  | other => throw (.node (.badEntry other.text))

def logFile (name : String) : String :=
  name.map Char.toLower ++ "_instrs.yaml"

def nodeStep : NodeM Report := do
  let app := intField d "app" 0
  match textField d "do" with
  | "init" =>
    Node.initApp app (intField d "max_qubits" 0)
    return .null
  | "run" =>
    Node.run (← subroutineOf (← get).flavour d)
    return .null
  | "stop" =>
    Node.stopApp app
    return .null
  | "epr" =>
    Node.handleResponse (← responseOf (d.field "response"))
    return .null
  | "socket" =>
    Node.openSocket (intField d "id" 0) (intField d "remote" 0) (intField d "remote_id" 0)
    return .null
  | "position" =>
    return .int (← Node.position (d.field "sub").int? (intField d "address" 0) (d.field "app").int?)
  | "positions" =>
    let sub := (d.field "sub").int?
    let places ← (d.field "addresses").items.mapM fun a => Node.position sub (a.intD 0) none
    return .list (places.map Report.int)
  | "has" => return .bool (← Node.hasVirtual app (intField d "address" 0))
  | "stack" => throw (.node (.notAStack (d.field "value").typeText))
  | "update" =>
    updateStep app (← operandOf (d.field "entry")) (d.field "value")
    return .null
  | "hook" => throw (.unexplained .unimplemented)
  | "base_logger" =>
    modify fun s => { s with logger := .bare }
    let name := (← get).name
    return .list [.text (logFile name), .texts [name]]
  | "msg" =>
    Node.deliver (← HostMessage.decode (bytesOf (d.field "hex")))
    return .null
  | _ => throw .mistyped

def nodeStepWith : NodeM Report := do
  match d.field? "epr" with
  | some responses =>
    let rs ← responsesOf responses
    modify fun s => { s with arrivals := rs }
  | none => pure ()
  nodeStep d

def messageFields (index : Nat) (d : Datum) (result : Except Fault Report)
    (s : Node) : List (String × Report) :=
  if textField d "do" = "msg" then
    let done := match result, HostMessage.decode (bytesOf (d.field "hex")) with
      | .ok _, .ok m => [Report.list [.int index, .text m.title]]
      | _, _ => []
    [("done", .list done), ("active", sortedInts s.active),
     ("flags", .list [.bool (!s.active.isEmpty), .bool s.finished, .bool s.stopped])]
  else []

def nodeStepReport (logging : Bool) (index : Nat) (s : Node) (d : Datum) : Report × Node :=
  let before := { s with events := [], log := [], budget := Node.stepBudget }
  let (result, s) := (nodeStepWith d).run before
  let log := if logging then [("log", Report.list (s.log.map logReport))] else []
  let fields := [("events", .list (s.events.map eventReport)), ("state", stateReport s)] ++ log
  match result with
  | .ok r =>
    if textField d "do" = "msg" then (.record (fields ++ messageFields index d result s), s)
    else (.outcome (.ok r) fields, s)
  | .error f => (.outcome (.error f) (fields ++ messageFields index d result s), s)

def nodeSteps (logging : Bool) : Nat → Node → List Datum → List Report
  | _, _, [] => []
  | index, s, d :: rest =>
    let (report, s) := nodeStepReport logging index s d
    report :: nodeSteps logging (index + 1) s rest

def nodeOf : Node :=
  let name := match d.field "name" with
    | .text t => t
    | _ => "node"
  let node := Node.fresh name (intField d "node_id" 0) (flavourOf d) (flagField d "hardware")
    (flagOr d "stack")
  { node with
    outcomes := (d.field "meas").items.map fun v => v.intD 0
    logger := if flagField d "log" then .recording else .off }

def runNode : Report :=
  .record [("steps", .list (nodeSteps (flagField d "log") 0 (nodeOf d) (d.field "steps").items))]

end QuantumNode.Scenario
