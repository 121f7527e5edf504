import QuantumNode.Session.Pairs

/-
  How a session is opened, how its programs reach the node, and how it is closed; and routines made
  of the operations of a session: composed gates, joint measurements, states shared by many nodes,
  and estimates of a prepared state.
-/

namespace QuantumNode
open Table

namespace Registry

def empty : Registry := ⟨[], []⟩

variable (r : Registry)

def idsOf (app : String) : List Int :=
  (get? app r.ids).getD []

def enter (app : String) (wanted : Option Int) : Checked (Int × Registry) := do
  let ids := r.idsOf app
  let id := wanted.getD (Allocation.firstFree ids)
  demand (!ids.contains id) (.session (.appIdTaken id))
  return (id, { r with ids := put app (ids ++ [id]) r.ids })

def name (node : String) (id : Int) (app : String) : Registry :=
  let apps := (get? node r.names).getD []
  { r with names := put node (put id app apps) r.names }

def leave (app : String) (id : Int) : Registry :=
  { r with ids := put app ((r.idsOf app).erase id) r.ids }

end Registry

namespace Session

-- Send a message to the node; a node at hand carries it out at once.
def send (m : HostMessage) : SessionM Unit := do
  let bytes := m.wrap.encode
  modify fun s => { s with sent := s.sent ++ [bytes] }
  match (← get).backend with
  | none => return ()
  | some node =>
    let handling : NodeM Unit := do Node.deliver (← HostMessage.decode bytes)
    let (result, node) := handling.run node
    modify fun s => { s with backend := some node }
    result

def commit (id : Nat) : SessionM Unit := do
  send (.subroutine (← (← programAt id).encode))

def instantiate (id : Nat) (appId : Int)
    (values : Option (List (String × Int))) : SessionM Unit := do
  setProgram id (← (← programAt id).instantiate appId values)

def compile : SessionM (Option Nat) := do
  match ← popDraft with
  | none => return none
  | some d => return some (← compileDraft d)

def flush : SessionM Unit := do
  match ← compile with
  | none => return ()
  | some id =>
    instantiate id (← get).appId none
    commit id
    modify fun s => { s with allocation := s.allocation.reset, contexts := [] }

def clear : SessionM Unit :=
  modify fun s => { s with registry := s.registry.leave s.app s.appId }

structure Closing where
  stopsApp : Bool
  stopsNode : Bool
  failed : Bool

-- Close a session; after a failure nothing more is flushed.
def close (c : Closing) : SessionM Unit := do
  if !c.failed then flush
  clear
  if c.stopsApp then send (.stopApp (← get).appId)
  if c.stopsNode then send (.signal Node.stopSignal)
  deactivateAll

def nodeId (name : String) : SessionM Int := do
  match (← get).nodeIds.lookup name with
  | some id => return id
  | none => throw (.session (.unknownNodeName name))

def nodeNameAmong (id : Value) : List (String × Int) → SessionM String
  | [] => do throw (.session (.unknownNodeId (← valueText id)))
  | (name, n) :: rest => do
    let same : Bool ← match id with
      | .future f => pure (decide ((← knownValue f) = n))
      | v => pure (decide (v.int? = some n))
    if same then return name else nodeNameAmong id rest

def nodeName (id : Value) : SessionM String := do
  nodeNameAmong id (← get).nodeIds

def remoteNodePlace : Nat := 6

def remoteEntangled (q : Nat) : SessionM (Option String) := do
  let cell ← qubitCell q
  match cell.info, cell.remoteName with
  | .withheld, _ => throw (.session .futureQubit)
  | _, some name => return some name
  | .nothing, none => return none
  | .known futures, none =>
    let name ← nodeName (.future (futures.getD remoteNodePlace 0))
    setQubit q { ← qubitCell q with remoteName := some name }
    return some name

-- A socket before it is connected; its fidelity is a percentage.
def socketFor (remote : String) (id remoteId : Int) (minFidelity : Value) : Checked PairSocket :=
  match minFidelity.int? with
  | none => .error (.session (.badFidelity minFidelity.plainText))
  | some f =>
    if f < 0 || 100 < f then .error (.session (.badFidelity minFidelity.plainText))
    else .ok ⟨remote, id, remoteId, f, false, none⟩

variable (n : Nat) (p : Plan)

def openSocket : SessionM Unit := do
  let socket ← socketAt n
  let s ← get
  if socket.remote = s.app then throw (.session .ownSocket)
  let remote ← nodeId socket.remote
  let connected := { socket with connected := true, remoteNode := some remote }
  modify fun s => { s with sockets := s.sockets.setIfInBounds n connected }
  send (.openSocket s.appId socket.id remote socket.remoteId socket.minFidelity)

def remoteNodeOf : SessionM Int := do
  match (← socketAt n).remoteNode with
  | some id => return id
  | none => throw (.session .noRemoteNode)

def checkConnected : SessionM Unit := do
  if !(← socketAt n).connected then throw (.session .notConnected)

def requestOn : SessionM PairRequest := do
  checkConnected n
  return .one (← remoteNodeOf n) (← socketAt n).id

structure Plan where
  app : String
  node : Option String
  appId : Option Int
  maxQubits : Int
  hardware : Option Hardware
  mapped : Bool
  returnsArrays : Bool
  nodeIds : List (String × Int)
  reachable : Bool
  backend : Option Node
  sockets : List (PairSocket × Bool)

-- The hardware of a plan; programs for mapping need one place for entanglement.
def Plan.hardwareFor : Checked Hardware := do
  let h ← match p.hardware with
    | some h => pure h
    | none => Hardware.generic p.maxQubits
  if p.mapped then Hardware.nitrogenVacancy h.qubits else return h

def ofPlan (registry : Registry) : Checked Session := do
  let (id, registry) ← registry.enter p.app p.appId
  let node := p.node.getD p.app
  let hardware ← p.hardwareFor
  return {
    app := p.app
    node := node
    appId := id
    hardware := hardware
    mapped := p.mapped
    returnsArrays := p.returnsArrays
    nodeIds := p.nodeIds
    pending := []
    allocation := .empty
    labels := .empty
    nextContext := 0
    contexts := []
    futures := #[]
    qubits := #[]
    programs := #[]
    committed := []
    sockets := (p.sockets.map Prod.fst).toArray
    tracker := none
    frames := []
    registry := registry.name node id p.app
    backend := p.backend
    memory := none
    sent := [] }

def introduce : SessionM Unit := do
  send (.initApp (← get).appId p.maxQubits)
  if !p.reachable then throw (.session .noSharedMemory)
  for (n, registered) in (p.sockets.map Prod.snd).zipIdx.map fun (r, n) => (n, r) do
    if registered then openSocket n

def start (registry : Registry) : Checked Session := do
  let session ← ofPlan p registry
  let (result, session) := (introduce p).run session
  result
  return session

end Session

end QuantumNode

namespace QuantumNode.Session

def gateOn (op : Op) (q : Nat) : SessionM Unit := do
  gate op (← qubitCell q).address

def gateOnTwo (op : Op) (q t : Nat) : SessionM Unit := do
  twoQubitGate op (← qubitCell q).address (← qubitCell t).address

def inverseT (q : Nat) : SessionM Unit :=
  (List.replicate 7 q).forM (gateOn .t)

-- Flip a qubit if two others are set.
def toffoli (first second target : Nat) : SessionM Unit := do
  gateOn .h target
  gateOnTwo .cnot second target
  inverseT target
  gateOnTwo .cnot first target
  gateOn .t target
  gateOnTwo .cnot second target
  inverseT target
  gateOnTwo .cnot first target
  gateOn .t second
  gateOn .t target
  gateOn .h target
  gateOnTwo .cnot first second
  gateOn .t first
  inverseT second
  gateOnTwo .cnot first second

def setState (q : Nat) (phi theta : Float) : SessionM Unit := do
  rotationBy .rotY (← qubitCell q).address theta
  rotationBy .rotZ (← qubitCell q).address phi

def basisGate? : Char → Option Op
  | 'X' => some .h
  | 'Y' => some .k
  | _ => none

def turnBases (pairs : List (Nat × Char)) : SessionM Unit :=
  pairs.forM fun (q, c) =>
    match basisGate? c with
    | some op => gateOn op q
    | none => pure ()

def measureProduct (pairs : List (Nat × Char)) : SessionM Value := do
  match pairs.filter fun (_, c) => c ≠ 'I' with
  | [] => return .int 0
  | [(q, c)] =>
    turnBases [(q, c)]
    let m ← measure q .none true true .z none
    turnBases [(q, c)]
    return m
  | involved =>
    let ancilla ← createQubit true .nothing none
    turnBases pairs
    involved.forM fun (q, _) => gateOnTwo .cnot q ancilla
    let m ← measure ancilla .none false true .z none
    turnBases pairs
    return m

-- The other outcome; that of a future is found by a command.
def flipOutcome : Value → SessionM Value
  | .future f => do
    increase f (.int 1) (.int 2)
    return .future f
  | v => return .int (1 - v.int?.getD 0)

-- Measure the parity of qubits in the bases of Pauli letters; a sign in front flips the outcome.
def parity (qubits : List Nat) (bases : List Char) : SessionM Value := do
  let negative := bases.head? = some '-'
  let letters := if negative then bases.drop 1 else bases
  if qubits.length ≠ letters.length then throw (.session .pauliCount)
  if !letters.all "IXYZ".toList.contains then throw (.session .pauliLetters)
  let m ← measureProduct (qubits.zip letters)
  if negative then flipOutcome m else return m

-- The sockets of a node in a chain: for pairs and for messages, downwards and upwards. Messages
-- that will come from below are given.
structure Chain where
  pairsDown : Option Nat
  pairsUp : Option Nat
  fromBelow : Option (List String)
  canSendUp : Bool

def onePair (role : PairRole) (socket : Nat) : SessionM Nat := do
  let request ← requestOn socket
  let (qubits, _) ← keepPairs (m := SessionM) role request none
  match qubits with
  | q :: _ => return q
  | [] => throw .noIndex

def correctionFrom (messages : Option (List String)) : Checked Int :=
  match messages with
  | none => .error .unmet
  | some [] => .error .noIndex
  | some (text :: _) =>
    match Text.Numeral.lenient? text.toList with
    | some n => .ok n
    | none => .error .malformed

def outcomeValue : Value → SessionM Int
  | .future f => knownValue f
  | v => return v.int?.getD 0

def correctChain (c : Chain) (q : Nat) (outcome : Value) : SessionM (List String) := do
  match c.pairsDown with
  | none =>
    if !c.canSendUp then throw .unmet
    return ["0"]
  | some _ =>
    let received ← correctionFrom c.fromBelow
    if received = 1 then gateOn .x q
    if c.pairsUp.isNone then return []
    if !c.canSendUp then throw .unmet
    return [toString (((← outcomeValue outcome) + received).fmod 2)]

-- Take part in a state that all nodes of a chain share. The answer is the qubit, an outcome that
-- the state still depends on, and the messages for the node above.
def createGhz (c : Chain) (corrected : Bool) : SessionM (Nat × Value × List String) := do
  let (q, outcome) ← match c.pairsDown, c.pairsUp with
    | none, none => throw (.session .noPartners)
    | none, some up => do pure (← onePair .create up, Value.int 0)
    | some down, none => do pure (← onePair .receive down, Value.int 0)
    | some down, some up => do
      let q ← onePair .receive down
      let above ← onePair .create up
      gateOnTwo .cnot q above
      let m ← measure above .none false true .z none
      pure (q, m)
  flush
  if corrected then
    let sent ← correctChain c q outcome
    return (q, .int 0, sent)
  else return (q, outcome, [])

def estimateAxes : List Char := ['X', 'Y', 'Z']

def average (outcomes : List Value) (iterations : Int) : SessionM Float := do
  let values ← outcomes.mapM outcomeValue
  if iterations = 0 then throw (.unexplained .divisionByZero)
  return Float.ofInt (values.foldl (· + ·) 0) / Float.ofInt iterations

variable {m : Type → Type} [Monad m] [MonadLiftT SessionM m]

def measureAlong (axis : Char) (prepare : m Nat) : m Value := do
  let q ← prepare
  let measuring : SessionM Value := do
    turnBases [(q, axis)]
    measure q .none false true .z none
  measuring

def outcomesAlong (prepare : m Nat) (iterations : Int) : List Char → m (List (Char × List Value))
  | [] => return []
  | axis :: rest => do
    let outcomes ← (List.replicate iterations.toNat axis).mapM fun c => measureAlong c prepare
    return (axis, outcomes) :: (← outcomesAlong prepare iterations rest)

def tomography (prepare : m Nat) (iterations : Int) : m (List (Char × Float)) := do
  let outcomes ← outcomesAlong prepare iterations estimateAxes
  let averaging : SessionM (List (Char × Float)) := do
    flush
    outcomes.mapM fun (axis, values) => do return (axis, ← average values iterations)
  averaging

def tolerance (confidence : Float) (iterations : Int) : Checked Float :=
  if iterations < 0 then .error .malformed
  else if iterations = 0 then .error (.unexplained .divisionByZero)
  else .ok (confidence / Float.sqrt (Float.ofInt iterations))

def testPreparation (prepare : m Nat) (expected : List Float) (confidence : Float)
    (iterations : Int) : m Bool := do
  let limit ← (tolerance confidence iterations : SessionM Float)
  let averages ← tomography prepare iterations
  return (averages.zip expected).all fun ((_, x), y) => !((x - y).abs > limit)

end QuantumNode.Session
