import QuantumNode.Scenario.Node
import QuantumNode.Session.Connection

/-
  Scripts: steps of an application in a session, with variables for what the steps answer.
-/

namespace QuantumNode
open Session

-- A session with the variables of an application and the reports of a block.
structure Script where
  session : Session
  bindings : Table String Value
  reports : List Report

-- Steps of a script. A refused step leaves the state that it had reached.
abbrev ScriptM := ExceptT Fault (StateM Script)

def ScriptM.ofSession {α : Type} (x : SessionM α) : ScriptM α :=
  ExceptT.mk fun script =>
    let (result, session) := x.run script.session
    (result, { script with session := session })

instance : MonadLift SessionM ScriptM where
  monadLift := ScriptM.ofSession

namespace Scenario

---- Reports

-- A future by its place; an index may be a future in turn.
def futureReport (s : Session) : Nat → Nat → Report
  | 0, _ => .null
  | depth + 1, id =>
    match (s.futures.getD id default).place with
    | .register r => .record [("regfuture", optionReport (fun r => .text r.text) r)]
    | .entry address index =>
      let place := match index with
        | .future inner => futureReport s depth inner
        | .reg r => .record [("reg", .text r.text)]
        | .int i => .int i
        | .bool b => .bool b
        | .float x => .datum (.float x)
        | .none => .null
        | v => .text v.plainText
      .record [("future", .list [.int address, place])]

variable (s : Session) (d : Datum) (name : String)

def futureById (id : Nat) : Report :=
  futureReport s (s.futures.size + 1) id

def addressReport : QubitAddress → Report
  | .fixed id => .int id
  | .stored f => futureById s f

def intsReport (xs : List Int) : Report :=
  .list (xs.map Report.int)

mutual

def valueReport (s : Session) : Value → Report
  | .none => .null
  | .bool b => .bool b
  | .int v => .int v
  | .float x => .datum (.float x)
  | .text t => .text t
  | .reg r => .record [("reg", .text r.text)]
  | .template name => .text name
  | .future id => futureById s id
  | .array a => .record [("array", intsReport [a.address, a.length])]
  | .qubit q =>
    let cell := s.qubits.getD q default
    .record [("qubit", addressReport s cell.address), ("active", .bool cell.active)]
  | .list items => .list (valueReports s items)
  | .record fields => .record (fieldReports s fields)
  | .pairInfo futures => .list (futures.map (futureById s))
  | .keep r =>
    .record [("keep", .list ([r.qubit, r.remoteNode, r.duration, r.bell].map (futureById s)))]
  | .measured r =>
    .record [("measure", .list [futureById s r.outcome, intsReport r.localBasis,
      intsReport r.remoteBasis, .bool r.corrected, futureById s r.remoteNode,
      futureById s r.duration, futureById s r.bell])]
  | .program id => .record (shortSubroutine (s.programs.getD id default))
  | .draft d => .record (shortDraft d)
  | .socket _ | .session => .null

def valueReports (s : Session) : List Value → List Report
  | [] => []
  | v :: rest => valueReport s v :: valueReports s rest

def fieldReports (s : Session) : List (String × Value) → List (String × Report)
  | [] => []
  | (k, v) :: rest => (k, valueReport s v) :: fieldReports s rest

end

def sessionReport : Report :=
  let a := s.allocation
  .record [("pending", .int s.pending.length), ("regs", .texts (a.sortedRegisters.map Reg.text)),
    ("qubits", .list (a.qubits.map fun q => addressReport s (s.qubits.getD q default).address)),
    ("meas", .texts (a.usedOutcomes.map Reg.text)),
    ("ret", .texts (a.returnedRegisters.map Reg.text)),
    ("arrays", intsReport (a.returnedArrays.map HostArray.address))]

---- Values

-- The place of an item in a list; a negative one counts from the end.
def itemOf (items : List Value) (index : Int) : Checked Value :=
  let place := if index < 0 then index + items.length else index
  if place < 0 then .error .noIndex
  else
    match items[place.toNat]? with
    | some v => .ok v
    | none => .error .noIndex

def optionValue : Option Int → Value
  | some v => .int v
  | none => .none

def blockValue (b : Block) : Value :=
  .list (b.map optionValue)

def boundOf : Value → Option Int
  | .future _ => some 0
  | v => v.int?

def itemPlace (v : Value) : Checked Int :=
  (boundOf v).elim (.error .mistyped) .ok

-- An entry of an array or of a list; a list of bounds is a slice.
def entryOf (v index : Value) : SessionM Value := do
  match v, index with
  | .array a, .list bounds =>
    let part : Slice := match bounds.map boundOf with
      | [lo, hi] => ⟨lo, hi, none⟩
      | [lo, hi, step] => ⟨lo, hi, step⟩
      | _ => ⟨none, none, none⟩
    match ← readSlice a.address part with
    | some b => return blockValue b
    | none => return .none
  | .array a, i => return optionValue (← readEntry a.address (← itemPlace i))
  | .list items, i => itemOf items (← itemPlace i)
  | .pairInfo futures, i => itemOf (futures.map Value.future) (← itemPlace i)
  | .record fields, .text key =>
    match fields.lookup key with
    | some x => return x
    | none => throw .noKey
  | _, _ => throw .mistyped

def bellValue (bell : Nat) : SessionM Value := do
  return .text ("BellState." ++ (← bellState bell).name)

def intList (xs : List Int) : Value :=
  .list (xs.map Value.int)

def qubitAttribute (q : Nat) (name : String) : SessionM Value := do
  let cell ← qubitCell q
  match name with
  | "qubit_id" => return addressValue cell.address
  | "active" => return .bool cell.active
  | "entanglement_info" =>
    match cell.info with
    | .nothing => return .none
    | .known futures => return .pairInfo futures
    | .withheld => throw (.session .futureQubit)
  | "remote_entangled_node" =>
    match ← remoteEntangled q with
    | some node => return .text node
    | none => return .none
  | _ => throw .noAttribute

def pairInfoNames : List String :=
  ["type", "create_id", "logical_qubit_id", "directionality_flag", "sequence_number", "purpose_id",
   "remote_node_id", "goodness", "goodness_time", "bell_state"]

def pairInfoAttribute (futures : List Nat) (name : String) : SessionM Value :=
  match (pairInfoNames.zip futures).lookup name with
  | some f => return .future f
  | none => throw .noAttribute

def measuredAttribute (r : MeasureResult) (name : String) : SessionM Value := do
  match name with
  | "raw_measurement_outcome" => return .future r.outcome
  | "measurement_basis_local" => return intList r.localBasis
  | "measurement_basis_remote" => return intList r.remoteBasis
  | "post_process" => return .bool r.corrected
  | "remote_node_id" => return .future r.remoteNode
  | "generation_duration" => return .future r.duration
  | "raw_bell_state" => return .future r.bell
  | "measurement_outcome" => return .int (← outcomeOf r)
  | "bell_state" => bellValue r.bell
  | _ => throw .noAttribute

def keepAttribute (r : KeepResult) (name : String) : SessionM Value := do
  match name with
  | "qubit_id" => return .future r.qubit
  | "remote_node_id" => return .future r.remoteNode
  | "generation_duration" => return .future r.duration
  | "raw_bell_state" => return .future r.bell
  | "bell_state" => bellValue r.bell
  | _ => throw .noAttribute

def socketAttribute (n : Nat) (name : String) : SessionM Value := do
  let socket ← socketAt n
  match name with
  | "conn" =>
    checkConnected n
    return .session
  | "remote_app_name" => return .text socket.remote
  | "remote_node_id" => return .int (← remoteNodeOf n)
  | "epr_socket_id" => return .int socket.id
  | "remote_epr_socket_id" => return .int socket.remoteId
  | "min_fidelity" => return .int socket.minFidelity
  | _ => throw .noAttribute

def futureAttribute (f : Nat) (name : String) : SessionM Value := do
  match name, (← futureCell f).place with
  | "value", _ => return optionValue (← valueOf f)
  | "reg", .register (some r) => return .reg r
  | "reg", .register none => return .none
  | _, _ => throw .noAttribute

def sessionAttribute : SessionM Value := do
  let s ← get
  match name with
  | "app_name" => return .text s.app
  | "node_name" => return .text s.node
  | "app_id" => return .int s.appId
  | "active_qubits" => return .list (s.allocation.qubits.map Value.qubit)
  | _ => throw .noAttribute

def attributeOf (v : Value) (name : String) : SessionM Value :=
  match v with
  | .qubit q => qubitAttribute q name
  | .pairInfo futures => pairInfoAttribute futures name
  | .measured r => measuredAttribute r name
  | .keep r => keepAttribute r name
  | .socket n => socketAttribute n name
  | .future f => futureAttribute f name
  | .session => sessionAttribute name
  | .array a => if name = "address" then return .int a.address else throw .noAttribute
  | _ => throw .noAttribute

def valueNamed : ScriptM Value := do
  match Table.get? name (← getThe Script).bindings with
  | some v => return v
  | none => throw .noKey

def assign (v : Value) : ScriptM Unit :=
  modifyThe Script fun s => { s with bindings := Table.put name v s.bindings }

-- The value that a datum denotes: a text is a variable, and lists with a word in front are
-- registers, texts, templates, items and attributes.
def evaluateWithin : Nat → Datum → ScriptM Value
  | 0, _ => return .none
  | _, .null => return .none
  | _, .bool b => return .bool b
  | _, .int v => return .int v
  | _, .float x => return .float x
  | _, .text name => valueNamed name
  | _, .table _ => return .none
  | depth + 1, .list items => do
    match items with
    | [.text "none"] => return .none
    | [.text "reg", r] => return .reg (← regOf r)
    | [.text "str", .text s] => return .text s
    | [.text "tmpl", .text s] => return .template s
    | [.text "item", v, i] =>
      let v ← evaluateWithin depth v
      let i ← evaluateWithin depth i
      entryOf v i
    | [.text "attr", v, .text name] =>
      let v ← evaluateWithin depth v
      attributeOf v name
    | _ => return .list (← items.mapM (evaluateWithin depth))

mutual

def listDepth : Datum → Nat
  | .list items => listDepths items + 1
  | _ => 0

def listDepths : List Datum → Nat
  | [] => 0
  | d :: rest => max (listDepth d) (listDepths rest)

end

def evaluate : ScriptM Value :=
  evaluateWithin (listDepth d + 1) d

def argument : ScriptM Value :=
  evaluate (d.field name)

def argumentOr (default : Value) : ScriptM Value :=
  match d.field? name with
  | some v => evaluate v
  | none => return default

def qubitArgument : ScriptM Nat := do
  match ← argument d name with
  | .qubit q => return q
  | _ => throw .noAttribute

def arrayArgument : ScriptM HostArray := do
  match ← argument d name with
  | .array a => return a
  | _ => throw .noAttribute

def futureArgument : ScriptM Nat := do
  match ← argument d name with
  | .future f => return f
  | _ => throw .noAttribute

def socketArgument : ScriptM Nat := do
  match ← argument d name with
  | .socket n => return n
  | _ => throw .noAttribute

def programArgument : ScriptM Nat := do
  match ← argument d name with
  | .program id => return id
  | _ => throw .noAttribute

def valueWords : Value → SessionM String
  | .future f => futureText f
  | .qubit q => do
    let s ← get
    if (← qubitCell q).active then return "Qubit at the node " ++ s.node
    else return "Not active qubit"
  | .session => do
    let s ← get
    return s!"NetQASM connection for app '{s.app}' with node '{s.node}'"
  | v => return v.plainText

def valueDetails : Value → SessionM String
  | .future f => futureLabel f
  | .text s => return Text.Quoted.quote s
  | v => return v.plainText

end Scenario

end QuantumNode

namespace QuantumNode.Scenario

---- Requests

def timeOptions : List String := ["time_unit", "max_time"]

def fidelityOptions : List String := ["min_fidelity_all_at_end", "max_tries"]

def routineOptions : List String := ["post_routine", "sequential"]

def localBasisOptions : List String := ["basis_local", "rotations_local", "random_basis_local"]

def remoteBasisOptions : List String := ["basis_remote", "rotations_remote", "random_basis_remote"]

def pairOptions? : String → Option (List String)
  | "create_keep" => some ("number" :: routineOptions ++ timeOptions ++ fidelityOptions)
  | "create_keep_with_info" =>
    some ("number" :: "min_fidelity_all_at_end" :: routineOptions ++ timeOptions)
  | "create_measure" =>
    some ("number" :: timeOptions ++ localBasisOptions ++ remoteBasisOptions)
  | "create_rsp" => some ("number" :: timeOptions ++ localBasisOptions ++ fidelityOptions)
  | "create" =>
    some ("number" :: "tp" :: routineOptions ++ timeOptions ++ localBasisOptions
      ++ remoteBasisOptions)
  | "create_context" => some ("number" :: "sequential" :: timeOptions)
  | "recv_keep" | "recv_keep_with_info" =>
    some ("number" :: "expect_phi_plus" :: routineOptions ++ fidelityOptions)
  | "recv_measure" => some ["number", "expect_phi_plus"]
  | "recv_rsp" | "recv_rsp_with_info" => some ("number" :: "expect_phi_plus" :: fidelityOptions)
  | "recv" => some ("number" :: "tp" :: routineOptions)
  | "recv_context" => some ["number", "sequential"]
  | _ => none

def checkOptions (method : String) (options : List String) : Checked Unit :=
  match pairOptions? method with
  | none => .error .noAttribute
  | some allowed => demand (options.all allowed.contains) .mistyped

variable (d : Datum)

-- What a name stands for; there is a default for no name.
def namedOr {α : Type} (default : α) (find : String → Option α) : Checked α :=
  if d.isNull then .ok default else (find d.textD).elim (.error .noKey) .ok

def timeUnitOf : Checked TimeUnit :=
  namedOr d .microSeconds fun name => TimeUnit.all.find? fun u => u.name == name

def randomBasisOf : Checked (Option Int) :=
  namedOr d none fun name => (randomBasisNames.findIdx? (· == name)).map fun i => some i

def rotationsOf (basis rotations : Datum) : Checked (List Int) :=
  match basis, rotations with
  | .text name, _ => do return (← PauliBasis.ofName name).rotations
  | _, .list rs => .ok (rs.map fun r => r.intD 0)
  | _, _ => .ok PairRequest.unrotated

def pairKindOf : Checked PairKind :=
  namedOr d .keep fun name => PairKind.all.find? fun k => k.name == name

def pairRequest (base : PairRequest) : Checked PairRequest := do
  return { base with
    number := intField d "number" 1
    sequential := flagField d "sequential"
    timeUnit := ← timeUnitOf (d.field "time_unit")
    maxTime := intField d "max_time" 0
    expectPhiPlus := flagOr d "expect_phi_plus"
    minFidelity := (d.field "min_fidelity_all_at_end").int?
    maxTries := (d.field "max_tries").int?
    randomLocal := ← randomBasisOf (d.field "random_basis_local")
    randomRemote := ← randomBasisOf (d.field "random_basis_remote")
    rotationsLocal := ← rotationsOf (d.field "basis_local") (d.field "rotations_local")
    rotationsRemote := ← rotationsOf (d.field "basis_remote") (d.field "rotations_remote") }

def requestArgument (socket : Nat) : ScriptM PairRequest := do
  let _ ← pairRequest (d.field "kw") (.one 0 0)
  pairRequest (d.field "kw") (← Session.requestOn socket)

---- Steps

def qubitValues (qubits : List Nat) : Value :=
  .list (qubits.map Value.qubit)

def keepValues (rs : List KeepResult) : Value :=
  .list (rs.map Value.keep)

def measuredValues (rs : List MeasureResult) : Value :=
  .list (rs.map Value.measured)

def keepStep (role : PairRole) (request : PairRequest) (routine : Option (Nat → Nat → ScriptM Unit))
    (withInfo : Bool) : ScriptM Value := do
  let (qubits, info) ← Session.keepPairs role request routine
  return if withInfo then .list [qubitValues qubits, keepValues info] else qubitValues qubits

def preparedStep (request : PairRequest) (withInfo : Bool) : ScriptM Value := do
  let (qubits, info) ← Session.receivePairs request
  return if withInfo then .list [qubitValues qubits, keepValues info] else qubitValues qubits

def createOfKind (kind : PairKind) (request : PairRequest)
    (routine : Option (Nat → Nat → ScriptM Unit)) (basis : Datum) : ScriptM Value := do
  match kind with
  | .keep => keepStep .create request routine false
  | .measure =>
    return measuredValues (← Session.measurePairs .create { request with sequential := false })
  | .prepare =>
    let rotations ← rotationsOf basis .null
    return measuredValues (← Session.preparePairs { request with
      sequential := false
      rotationsLocal := rotations
      rotationsRemote := PairRequest.unrotated
      randomRemote := none })

def receiveOfKind (kind : PairKind) (request : PairRequest)
    (routine : Option (Nat → Nat → ScriptM Unit)) : ScriptM Value := do
  let plain := { request with sequential := false }
  match kind with
  | .keep => keepStep .receive request routine false
  | .measure => return measuredValues (← Session.measurePairs .receive plain)
  | .prepare => preparedStep plain false

def givenOptions : List String :=
  (d.field "kw").fields.map Prod.fst ++ (if (d.field? "post").isSome then ["post_routine"] else [])

def pairStep (routine : Option (Nat → Nat → ScriptM Unit)) : ScriptM Value := do
  let socket ← socketArgument d "s"
  let method := textField d "m"
  checkOptions method (givenOptions d)
  let kind ← pairKindOf ((d.field "kw").field "tp")
  let request ← requestArgument d socket
  match method with
  | "create_keep" => keepStep .create request routine false
  | "create_keep_with_info" => keepStep .create request routine true
  | "create_measure" => return measuredValues (← Session.measurePairs .create request)
  | "create_rsp" => return measuredValues (← Session.preparePairs request)
  | "create" => createOfKind kind request routine ((d.field "kw").field "basis_local")
  | "recv_keep" => keepStep .receive request routine false
  | "recv_keep_with_info" => keepStep .receive request routine true
  | "recv_measure" => return measuredValues (← Session.measurePairs .receive request)
  | "recv_rsp" => preparedStep request false
  | "recv_rsp_with_info" => preparedStep request true
  | "recv" => receiveOfKind kind request routine
  | _ => throw .noAttribute

-- A block over pairs; the body gets the qubit and what counts the pairs.
def pairsBlockStep (body : Value → Value → ScriptM Unit) : ScriptM Unit := do
  let socket ← socketArgument d "s"
  let method := textField d "m"
  checkOptions method (givenOptions d)
  let request ← requestArgument d socket
  if method = "create_context" then
    Session.pairsBlock .create request fun q r => do
      let pair ← Session.registerFuture r
      body (.qubit q) (.future pair)
  else
    Session.pairsBlock .receive request fun q r => body (.qubit q) (.reg r)

def bellReport (bell : Option Int) : Report :=
  .ofChecked (fun b => .text b.name) (bellStateOf bell)

def runPairQuery : Checked Report := do
  let ints (name : String) : List Int := (d.field name).items.map fun v => v.intD 0
  match textField d "fn" with
  | "basis_to_rotation" =>
    return .outcome (.ok (intsReport (← PauliBasis.ofName (textField d "basis")).rotations)) []
  | "rotation_to_basis" =>
    return .outcome (.ok (optionReport (fun b => .text b.path)
      (PauliBasis.ofRotations? (ints "rotations")))) []
  | "serialize" =>
    let kind ← pairKindOf (d.field "type")
    let request ← pairRequest (d.field "params") (.one 1 0)
    return .outcome (.ok (.list ((request.arguments kind).map Report.option))) []
  | "outcome" =>
    let query : OutcomeQuery := ⟨ints "local", ints "remote", flagField d "post_process"⟩
    let bell := (d.field "bell").int?
    return .record [
      ("outcome", .ofChecked Report.int (correctedOutcome query (d.field "outcome").int? bell)),
      ("bell", bellReport bell)]
  | _ => return .record [("bell", bellReport (d.field "bell").int?)]

end QuantumNode.Scenario
