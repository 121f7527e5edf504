import QuantumNode.Channel.Socket
import QuantumNode.Scenario.Data

/-
  Scenarios on sockets for classical messages.
-/

namespace QuantumNode.Scenario
open Channel

inductive Endpoint
  | socket (n : Nat)
  | broadcast (partners : List (String × Nat))

structure ChannelState where
  board : Switchboard
  bindings : Table String Endpoint

abbrev EndpointM := ExceptT Fault (StateM ChannelState)

def onBoard {α : Type} (x : ChannelM α) : EndpointM α := do
  let s ← get
  let (r, board) := x.run s.board
  set { s with board := board }
  r

def Endpoint.sockets : Endpoint → List Nat
  | .socket n => [n]
  | .broadcast partners => partners.map Prod.snd

def dropVariable (name : String) : EndpointM Unit := do
  if let some e := Table.get? name (← get).bindings then
    e.sockets.forM fun n => onBoard (close n)
  modify fun s => { s with bindings := Table.erase name s.bindings }

-- Set a variable; sockets that it held before are closed.
def setEndpoint (name : String) (e : Endpoint) : EndpointM Unit := do
  dropVariable name
  modify fun s => { s with bindings := Table.put name e s.bindings }

variable (d : Datum)

def endpointOf : EndpointM Endpoint := do
  match Table.get? (textField d "s") (← get).bindings with
  | some e => return e
  | none => throw .noKey

-- The socket of a step; channels to many partners have fewer operations.
def singleSocket : EndpointM Nat := do
  match ← endpointOf d with
  | .socket n => return n
  | .broadcast _ => throw .noAttribute

def keyReport (k : SocketKey) : Report :=
  .list [.text k.app, .text k.remote, .int k.id]

def keyOf : SocketKey :=
  match d.field "names" with
  | .list [a, b] => ⟨a.textD, b.textD, intField d "id" 0⟩
  | _ => default

def marksOf : Datum → Bool × Bool
  | .list [a, b] => (a.isTrue, b.isTrue)
  | _ => (false, false)

def pairOfSockets : EndpointM Report := do
  let key := keyOf d
  let (n, m) ← onBoard (openPair key (marksOf (d.field "storage")) (marksOf (d.field "callbacks")))
  let names := (d.field "as").items.map Datum.textD
  setEndpoint (names.getD 0 "") (.socket n)
  setEndpoint (names.getD 1 "") (.socket m)
  return .list [keyReport key, keyReport key]

def broadcastGroup (names : List String) : EndpointM Report := do
  let channels ← names.mapM fun app => do
    let partners := names.filter (· ≠ app)
    let sockets ← partners.mapM fun remote =>
      onBoard do
        checkKey ⟨app, remote, 0⟩
        joinHub ⟨app, remote, 0⟩ false false
    return (app, partners.zip sockets)
  channels.forM fun (app, partners) => setEndpoint app (.broadcast partners)
  return .null

def receiveStep (blocking : Bool) : EndpointM Report := do
  match ← endpointOf d with
  | .socket n => return .text (← onBoard (receive n blocking))
  | .broadcast partners =>
    let (sender, m) ← onBoard (receiveFromAny partners blocking)
    return .texts [sender, m]

def channelStep : EndpointM Report := do
  match textField d "do" with
  | "pair" => pairOfSockets d
  | "single" =>
    let key := keyOf d
    let n ← onBoard (openSocket key)
    setEndpoint (textField d "as") (.socket n)
    return keyReport key
  | "broadcast" => broadcastGroup ((d.field "names").items.map Datum.textD)
  | "close" =>
    let _ ← endpointOf d
    dropVariable (textField d "s")
    return .null
  | "send" =>
    match ← endpointOf d with
    | .socket n => onBoard (send n (d.field "msg"))
    | .broadcast partners => onBoard (sendToAll partners (d.field "msg"))
    return .null
  | "send_silent" =>
    let n ← singleSocket d
    onBoard (sendSilently n (d.field "msg"))
    return .null
  | "send_structured" =>
    let n ← singleSocket d
    match d.field "msg" with
    | .list [header, payload] => onBoard (sendEnvelope n ⟨header, payload⟩)
    | _ => throw .malformed
    return .null
  | "recv" => receiveStep d (flagOr d "block")
  | "recv_now" => receiveStep d false
  | "recv_silent" =>
    let n ← singleSocket d
    return .text (← onBoard (receiveSilently n (flagOr d "block")))
  | "recv_structured" =>
    let n ← singleSocket d
    let e ← onBoard (receiveEnvelope n (flagOr d "block"))
    return .list [.datum e.header, .datum e.payload]
  | "connected" =>
    let socket ← onBoard (socketAt (← singleSocket d))
    return .bool ((← get).board.hub.isConnected socket.key)
  | "wait" =>
    let socket ← onBoard (socketAt (← singleSocket d))
    if (← get).board.hub.isConnected socket.key then return .text "would block"
    return .null
  | "storage" =>
    match (← onBoard (socketAt (← singleSocket d))).stored with
    | some messages => return .texts messages
    | none => throw .noAttribute
  | "callbacks" =>
    let _ ← endpointOf d
    return .datum (d.field "value")
  | _ => throw .noAttribute

def messageEntryReport (e : MessageEntry) : Report :=
  let text? (s : Option String) : Report := (s.map Report.text).getD .null
  .record [("HFL", text? (e.line.map HostLine.file)), ("HLN", .option (e.line.map HostLine.number)),
    ("INS", .text e.action.name),
    ("LOG", .text e.words),
    ("MSG", text? e.message),
    ("REC", .text e.receiver),
    ("SEN", .text e.sender),
    ("SOD", .int e.socket)]

def logFields (s : Switchboard) : List (String × Report) :=
  if s.logging then
    [("log", .record (s.logs.map fun (app, es) => (app, .list (es.map messageEntryReport))))]
  else []

def channelSteps : ChannelState → List Datum → List Report
  | _, [] => []
  | s, d :: rest =>
    let s := { s with board := { s.board with frames := (lineOf? d).toList, logs := [] } }
    let (result, s) := (channelStep d).run s
    .outcome result (logFields s.board) :: channelSteps s rest

def runChannels : Report :=
  let tracking := match d.field "track" with
    | .null => none
    | t => some ((t.field "app_dir").text?, (t.field "lib_dirs").items.map Datum.textD)
  let board : Switchboard := ⟨.empty, #[], flagField d "log", [], tracking, []⟩
  .record [("steps", .list (channelSteps ⟨board, []⟩ (d.field "steps").items))]

end QuantumNode.Scenario
