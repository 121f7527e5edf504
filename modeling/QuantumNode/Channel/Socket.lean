import QuantumNode.Document.Json
import QuantumNode.Memory

/-
  Sockets for classical messages, channels that reach several partners, and the log of what they do.
  A socket is named by its key: two applications and a number. In the hub, two sockets are connected
  if both keys are open.
-/

namespace QuantumNode
open Table

-- An application, its partner, and the number of the socket between them.
structure SocketKey where
  app : String
  remote : String
  id : Int
  deriving DecidableEq, Inhabited

namespace SocketKey
variable (k : SocketKey)

def partner : SocketKey :=
  ⟨k.remote, k.app, k.id⟩

def text : String :=
  s!"({Text.Quoted.quote k.app}, {Text.Quoted.quote k.remote}, {k.id})"

@[simp] theorem partner_partner : k.partner.partner = k := rfl

end SocketKey

-- What becomes of a message for a key: some sockets keep it in a store of their own, others pay no
-- attention to it.
inductive Receiver
  | store (socket : Nat)
  | ignore
  deriving DecidableEq

-- The open keys, the keys that were open since their partner left last, waiting messages by key,
-- and the receivers of keys at which messages do not wait.
structure Hub where
  openKeys : List SocketKey
  knownKeys : List SocketKey
  mailboxes : Table SocketKey (List String)
  receivers : Table SocketKey Receiver

namespace Hub

def empty : Hub := ⟨[], [], [], []⟩

variable (k : SocketKey)

def including (keys : List SocketKey) : List SocketKey :=
  if keys.contains k then keys else keys ++ [k]

variable (h : Hub)

def join (receiver : Option Receiver) : Hub :=
  { h with
    openKeys := including k h.openKeys
    knownKeys := including k h.knownKeys
    receivers := match receiver with
      | some r => put k r h.receivers
      | none => h.receivers }

def hasPartner : Bool :=
  h.openKeys.contains k.partner || h.knownKeys.contains k.partner

def isConnected : Bool :=
  h.openKeys.contains k && h.openKeys.contains k.partner

-- Close a key; the partner is forgotten.
def disconnect : Hub :=
  { h with
    openKeys := h.openKeys.erase k
    knownKeys := h.knownKeys.erase k.partner
    receivers := erase k h.receivers }

def waiting : List String :=
  (get? k h.mailboxes).getD []

def deliver (message : String) : Hub :=
  { h with mailboxes := put k (h.waiting k ++ [message]) h.mailboxes }

-- Send a message from a key to its partner, which needs both ends. A receiver of the partner gets
-- it at once.
def send (message : String) : Checked (Hub × Option Receiver) :=
  if !h.isConnected k then .error (.channel .disconnected)
  else match get? k.partner h.receivers with
    | some r => .ok (h, some r)
    | none => .ok (h.deliver k.partner message, none)

def receive : Option (String × Hub) :=
  match h.waiting k with
  | [] => none
  | m :: rest => some (m, { h with mailboxes := put k rest h.mailboxes })

end Hub

def endMark : List Char := ['E', 'O', 'F']

def beforeMark : List Char → List Char
  | [] => []
  | c :: rest => if endMark.isPrefixOf (c :: rest) then [] else c :: beforeMark rest

def trimMessage (s : String) : String :=
  if endMark.isSuffixOf s.toList then String.ofList (beforeMark s.toList) else s

structure Envelope where
  header : Datum
  payload : Datum

namespace Envelope
variable (e : Envelope)

def document : String :=
  Json.write (.record [("header", e.header), ("payload", e.payload)])

def words : String :=
  e.header.words ++ ": " ++ e.payload.words

def details : String :=
  s!"StructuredMessage(header={e.header.literal}, payload={e.payload.literal})"

def part (d : Datum) (name : String) : Checked Datum :=
  match d with
  | .table _ =>
    match d.field? name with
    | some v => .ok v
    | none => .error .noKey
  | _ => .error .mistyped

def ofDocument (s : String) : Checked Envelope :=
  match Json.read? s with
  | none => .error (.unexplained .badJson)
  | some d => do return ⟨← part d "header", ← part d "payload"⟩

end Envelope

inductive SocketAction
  | send
  | wait
  | receive
  deriving DecidableEq

def SocketAction.name : SocketAction → String
  | .send => "SEND"
  | .wait => "WAIT_RECV"
  | .receive => "RECV"

structure MessageEntry where
  line : Option HostLine
  action : SocketAction
  message : Option String
  sender : String
  receiver : String
  socket : Int
  words : String

structure ChannelSocket where
  key : SocketKey
  stored : Option (List String)
  callbacks : Bool
  deriving Inhabited

-- All sockets of a process with their hub, the logs by application, and how lines of the
-- application are tracked.
structure Switchboard where
  hub : Hub
  sockets : Array ChannelSocket
  logging : Bool
  logs : Table String (List MessageEntry)
  tracking : Option (Option String × List String)
  frames : List HostLine

-- Operations on sockets.  A refused one leaves what it had reached.
abbrev ChannelM := ExceptT Fault (StateM Switchboard)

namespace Channel
variable (n : Nat) (k : SocketKey) (blocking : Bool)

def socketAt : ChannelM ChannelSocket := do
  return (← get).sockets.getD n default

def startDirectory : String := "/"

def tracker? : ChannelM (Option Tracker) := do
  match (← get).tracking with
  | none => return none
  | some (appDir, libDirs) =>
    return some (← Tracker.ofDirectories startDirectory appDir libDirs)

def currentLine : ChannelM (Option HostLine) := do
  match ← tracker? with
  | none => return none
  | some t => return some (← t.find (← get).frames)

def note (app : String) (entry : MessageEntry) : ChannelM Unit :=
  modify fun s =>
    if s.logging then
      { s with logs := put app ((get? app s.logs).getD [] ++ [entry]) s.logs }
    else s

def addSocket (socket : ChannelSocket) : ChannelM Nat := do
  let s ← get
  set { s with sockets := s.sockets.push socket }
  return s.sockets.size

-- What becomes of messages for a socket: they wait unless it has callbacks.
def receiverFor (socket : ChannelSocket) : Option Receiver :=
  if socket.stored.isSome then some (.store n)
  else if socket.callbacks then some .ignore
  else none

def close : ChannelM Unit := do
  let socket ← socketAt n
  modify fun s => { s with hub := s.hub.disconnect socket.key }

-- A socket cannot be its own partner, and tracking needs a directory.
def checkKey : ChannelM Unit := do
  if k.app = k.remote then throw (.channel (.ownPartner k.app k.remote))
  let _ ← tracker?

def joinHub (stored callbacks : Bool) : ChannelM Nat := do
  let socket : ChannelSocket := ⟨k, if stored then some [] else none, stored || callbacks⟩
  let n ← addSocket socket
  modify fun s => { s with hub := s.hub.join k (receiverFor n socket) }
  return n

-- Open a socket whose partner has to be there already.
def openSocket : ChannelM Nat := do
  checkKey k
  let n ← joinHub k false false
  if !(← get).hub.hasPartner k then
    close n
    throw (.channel (.connectTimedOut k.app k.remote k.id))
  return n

def openPair (stored callbacks : Bool × Bool) : ChannelM (Nat × Nat) := do
  checkKey k
  let n ← joinHub k stored.1 callbacks.1
  let m ← joinHub k.partner stored.2 callbacks.2
  return (n, m)

def handOver (message : String) : Receiver → ChannelM Unit
  | .ignore => return ()
  | .store n => do
    let socket ← socketAt n
    let stored := socket.stored.map (· ++ [message])
    modify fun s => { s with sockets := s.sockets.setIfInBounds n { socket with stored := stored } }

-- Send a text that may not be one, without a log.
def sendSilently (message : Datum) : ChannelM Unit := do
  let key := (← socketAt n).key
  match message with
  | .text m =>
    let (hub, receiver) ← (← get).hub.send key m
    modify fun s => { s with hub := hub }
    if let some r := receiver then handOver m r
  | d => throw (.channel (.notText d.typeText))

def send (message : Datum) : ChannelM Unit := do
  let key := (← socketAt n).key
  let line ← currentLine
  if (← get).logging then
    match message with
    | .text m =>
      let m := trimMessage m
      note key.app ⟨line, .send, some m, key.app, key.remote, key.id,
        s!"Send classical message to {key.remote}: {m}"⟩
    | _ => throw .noAttribute
  sendSilently n message

def sendEnvelope (e : Envelope) : ChannelM Unit := do
  let key := (← socketAt n).key
  let line ← currentLine
  note key.app ⟨line, .send, some e.words, key.app, key.remote, key.id,
    s!"Send classical message to {key.remote}: {e.document}"⟩
  sendSilently n (.text e.document)

-- Receive a message, without a log.  Without one a blocking call times out.
def receiveSilently : ChannelM String := do
  let key := (← socketAt n).key
  let s ← get
  match s.hub.receive key with
  | some (m, hub) =>
    set { s with hub := hub }
    return m
  | none =>
    throw (.channel (if blocking then .receiveTimedOut key.text else .nothingToReceive key.text))

def noteWaiting (key : SocketKey) (line : Option HostLine) : ChannelM Unit :=
  note key.app ⟨line, .wait, none, key.remote, key.app, key.id,
    s!"Waiting for a classical message from {key.remote}..."⟩

def noteReceived (key : SocketKey) (line : Option HostLine)
    (message words : String) : ChannelM Unit :=
  note key.app ⟨line, .receive, some message, key.remote, key.app, key.id,
    s!"Message received from {key.remote}: {words}"⟩

def receive : ChannelM String := do
  let key := (← socketAt n).key
  let line ← currentLine
  noteWaiting key line
  let m ← receiveSilently n blocking
  noteReceived key line (trimMessage m) (trimMessage m)
  return m

def receiveEnvelope : ChannelM Envelope := do
  let key := (← socketAt n).key
  let line ← currentLine
  noteWaiting key line
  let e ← Envelope.ofDocument (← receiveSilently n blocking)
  noteReceived key line e.words e.details
  return e

def sendToAll (partners : List (String × Nat)) (message : Datum) : ChannelM Unit :=
  partners.forM fun (_, n) => send n message

-- Receive a message from the first partner who sent one. A failure to receive is passed over.
def receiveFirst : List (String × Nat) → ChannelM (Option (String × String))
  | [] => return none
  | (partner, n) :: rest => do
    let attempt : ChannelM (Option String) := do
      try return some (← receive n false)
      catch f => if f.category = .failure then return none else throw f
    match ← attempt with
    | some m => return some (partner, m)
    | none => receiveFirst rest

-- Receive a message from any partner; without waiting none is looked for.
def receiveFromAny (partners : List (String × Nat))
    (blocking : Bool) : ChannelM (String × String) := do
  if !blocking then throw (.channel .nothingBroadcast)
  match ← receiveFirst partners with
  | some received => return received
  | none => throw (.channel .broadcastTimedOut)

end Channel

end QuantumNode
