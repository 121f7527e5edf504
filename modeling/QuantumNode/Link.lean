import QuantumNode.Fault

/-
  Records of the link layer: bases in which halves of pairs are measured, requests and responses, in
  the form that a node handles and in the form of the newer interface.
-/

namespace QuantumNode

---- Values

structure Member where
  enumeration : String
  name : String
  value : Int
  deriving DecidableEq

namespace Member

def path (m : Member) : String :=
  m.enumeration ++ "." ++ m.name

def text (m : Member) : String :=
  s!"<{m.enumeration}.{m.name}: {m.value}>"

end Member

inductive LinkValue
  | int (v : Int)
  | flag (b : Bool)
  | member (m : Member)
  deriving DecidableEq, Inhabited

namespace LinkValue

def number : LinkValue → Int
  | int v => v
  | flag b => if b then 1 else 0
  | member m => m.value

def text : LinkValue → String
  | int v => toString v
  | flag b => if b then "True" else "False"
  | member m => m.text

end LinkValue

def recordText (title : String) (fields : List (String × LinkValue)) : String :=
  title ++ "(" ++ ", ".intercalate (fields.map fun (k, v) => k ++ "=" ++ v.text) ++ ")"

def memberOf? (enumeration : String) (names : List String) (v : Int) : Option Member :=
  if 0 ≤ v then names[v.toNat]?.map fun name => ⟨enumeration, name, v⟩ else none

---- Enumerations

inductive RequestType
  | keep
  | measure
  | prepare
  | recv
  | stopRecv
  deriving DecidableEq, Inhabited

namespace RequestType

def all : List RequestType := [keep, measure, prepare, recv, stopRecv]

def name : RequestType → String
  | keep => "K"
  | measure => "M"
  | prepare => "R"
  | recv => "RECV"
  | stopRecv => "STOP_RECV"

def value : RequestType → Int
  | keep => 0
  | measure => 1
  | prepare => 2
  | recv => 3
  | stopRecv => 4

def ofValue? (v : Int) : Option RequestType :=
  all.find? fun t => t.value == v

def member (t : RequestType) : Member :=
  ⟨"RequestType", t.name, t.value⟩

end RequestType

inductive ReturnType
  | okKeep
  | okMeasure
  | okPrepare
  | err
  | createId
  deriving DecidableEq, Inhabited

namespace ReturnType

def all : List ReturnType := [okKeep, okMeasure, okPrepare, err, createId]

def name : ReturnType → String
  | okKeep => "OK_K"
  | okMeasure => "OK_M"
  | okPrepare => "OK_R"
  | err => "ERR"
  | createId => "CREATE_ID"

def value : ReturnType → Int
  | okKeep => 0
  | okMeasure => 1
  | okPrepare => 2
  | err => 3
  | createId => 4

def ofValue? (v : Int) : Option ReturnType :=
  all.find? fun t => t.value == v

def member (t : ReturnType) : Member :=
  ⟨"ReturnType", t.name, t.value⟩

end ReturnType

def randomBasisNames : List String := ["NONE", "XZ", "XYZ", "CHSH"]

def randomBasisNone : Member := ⟨"RandomBasis", "NONE", 0⟩

def basisNames : List String := ["Z", "X", "Y", "ZPLUSX", "ZMINUSX"]

def linkErrorNames : List String :=
  ["UNSUPP", "NOTIME", "NORES", "TIMEOUT", "REJECTED", "OTHER", "EXPIRE", "CREATE"]

inductive BellState
  | phiPlus
  | psiPlus
  | psiMinus
  | phiMinus
  deriving DecidableEq

namespace BellState

def all : List BellState := [phiPlus, psiPlus, psiMinus, phiMinus]

def name : BellState → String
  | phiPlus => "PHI_PLUS"
  | psiPlus => "PSI_PLUS"
  | psiMinus => "PSI_MINUS"
  | phiMinus => "PHI_MINUS"

def value : BellState → Int
  | phiPlus => 0
  | psiPlus => 1
  | psiMinus => 2
  | phiMinus => 3

def ofValue? (v : Int) : Option BellState :=
  all.find? fun b => b.value == v

end BellState

inductive TimeUnit
  | microSeconds
  | milliSeconds
  | seconds
  deriving DecidableEq, Inhabited

namespace TimeUnit

def all : List TimeUnit := [microSeconds, milliSeconds, seconds]

def name : TimeUnit → String
  | microSeconds => "MICRO_SECONDS"
  | milliSeconds => "MILLI_SECONDS"
  | seconds => "SECONDS"

def value : TimeUnit → Int
  | microSeconds => 0
  | milliSeconds => 1
  | seconds => 2

end TimeUnit

---- Bases

inductive PauliBasis
  | x
  | y
  | z
  | mx
  | my
  | mz
  deriving DecidableEq

namespace PauliBasis

def all : List PauliBasis := [x, y, z, mx, my, mz]

def name : PauliBasis → String
  | x => "X"
  | y => "Y"
  | z => "Z"
  | mx => "MX"
  | my => "MY"
  | mz => "MZ"

def path (b : PauliBasis) : String :=
  "EprMeasBasis." ++ b.name

def optionText : Option PauliBasis → String
  | some b => b.path
  | none => "None"

def ofName (name : String) : Checked PauliBasis :=
  match all.find? fun b => b.name == name with
  | some b => .ok b
  | none => .error .noKey

-- The rotations about X, Y and X again, in sixteenths of pi, that turn a basis into that of Z.
def rotations : PauliBasis → List Int
  | x => [0, 24, 0]
  | y => [8, 0, 0]
  | z => [0, 0, 0]
  | mx => [0, 8, 0]
  | my => [24, 0, 0]
  | mz => [16, 0, 0]

def ofRotations? (rs : List Int) : Option PauliBasis :=
  all.find? fun b => b.rotations == rs

-- Whether the outcomes at both ends of a pair differ from those for the first Bell state.
def flips (b : PauliBasis) : BellState → Bool
  | .phiPlus => false
  | .phiMinus => b == x || b == mx || b == y || b == my
  | .psiPlus => b == y || b == my || b == z || b == mz
  | .psiMinus => b == x || b == mx || b == z || b == mz

end PauliBasis

def otherOutcome (m : Int) : Int :=
  1 - m

-- What is known when an outcome is asked for: the bases at both ends and whether the outcome is to
-- be corrected.
structure OutcomeQuery where
  localBasis : List Int
  remoteBasis : List Int
  corrected : Bool

-- The basis in which an outcome can be corrected: the same at both ends.
def OutcomeQuery.basis (q : OutcomeQuery) : Checked PauliBasis :=
  let here := PauliBasis.ofRotations? q.localBasis
  let there := PauliBasis.ofRotations? q.remoteBasis
  if here ≠ there then
    .error (.session (.basesDiffer (PauliBasis.optionText here) (PauliBasis.optionText there)))
  else
    match here with
    | none => .error (.session .basisUnknown)
    | some b => .ok b

def bellStateOf : Option Int → Checked BellState
  | none => .error .unmet
  | some v =>
    match BellState.ofValue? v with
    | some b => .ok b
    | none => .error .malformed

-- The outcome of a measured pair as if the pair had been in the first Bell state. Outcome and Bell
-- state may not be known.
def correctedOutcome (q : OutcomeQuery) (outcome bell : Option Int) : Checked Int := do
  let raw : Checked Int := match outcome with
    | some m => .ok m
    | none => .error (.session .outcomeOpen)
  if !q.corrected then raw
  else
    let basis ← q.basis
    let m ← raw
    demand (m = 0 || m = 1) .unmet
    let state ← bellStateOf bell
    return if basis.flips state then otherOutcome m else m

---- Requests

structure CreateRequest where
  remoteNode : Int
  purpose : Int
  kind : RequestType
  number : Int
  randomLocal : LinkValue
  randomRemote : LinkValue
  minFidelity : Int
  timeUnit : Int
  maxTime : Int
  priority : Int
  atomic : Int
  consecutive : Int
  probLocal1 : Int
  probLocal2 : Int
  probRemote1 : Int
  probRemote2 : Int
  rotXLocal1 : Int
  rotYLocal : Int
  rotXLocal2 : Int
  rotXRemote1 : Int
  rotYRemote : Int
  rotXRemote2 : Int
  deriving DecidableEq

namespace CreateRequest

def fields (r : CreateRequest) : List (String × LinkValue) :=
  [("remote_node_id", .int r.remoteNode), ("purpose_id", .int r.purpose),
   ("type", .member r.kind.member), ("number", .int r.number),
   ("random_basis_local", r.randomLocal), ("random_basis_remote", r.randomRemote),
   ("minimum_fidelity", .int r.minFidelity), ("time_unit", .int r.timeUnit),
   ("max_time", .int r.maxTime), ("priority", .int r.priority), ("atomic", .int r.atomic),
   ("consecutive", .int r.consecutive), ("probability_dist_local1", .int r.probLocal1),
   ("probability_dist_local2", .int r.probLocal2),
   ("probability_dist_remote1", .int r.probRemote1),
   ("probability_dist_remote2", .int r.probRemote2),
   ("rotation_X_local1", .int r.rotXLocal1), ("rotation_Y_local", .int r.rotYLocal),
   ("rotation_X_local2", .int r.rotXLocal2), ("rotation_X_remote1", .int r.rotXRemote1),
   ("rotation_Y_remote", .int r.rotYRemote), ("rotation_X_remote2", .int r.rotXRemote2)]

-- The request with the given arguments; an undefined argument stands for the default. The kind has
-- to be a known one.
def ofArguments (remoteNode purpose : Int) (args : List (Option Int)) : Checked CreateRequest :=
  match args with
  | [kind, number, randomLocal, randomRemote, minFidelity, timeUnit, maxTime, priority, atomic,
     consecutive, probLocal1, probLocal2, probRemote1, probRemote2, rotXLocal1, rotYLocal,
     rotXLocal2, rotXRemote1, rotYRemote, rotXRemote2] =>
    match RequestType.ofValue? (kind.getD 0) with
    | none => .error .malformed
    | some k =>
      let random (x : Option Int) : LinkValue :=
        match x with
        | some v => .int v
        | none => .member randomBasisNone
      .ok {
        remoteNode := remoteNode
        purpose := purpose
        kind := k
        number := number.getD 1
        randomLocal := random randomLocal
        randomRemote := random randomRemote
        minFidelity := minFidelity.getD 0
        timeUnit := timeUnit.getD 0
        maxTime := maxTime.getD 0
        priority := priority.getD 0
        atomic := atomic.getD 0
        consecutive := consecutive.getD 0
        probLocal1 := probLocal1.getD 0
        probLocal2 := probLocal2.getD 0
        probRemote1 := probRemote1.getD 0
        probRemote2 := probRemote2.getD 0
        rotXLocal1 := rotXLocal1.getD 0
        rotYLocal := rotYLocal.getD 0
        rotXLocal2 := rotXLocal2.getD 0
        rotXRemote1 := rotXRemote1.getD 0
        rotYRemote := rotYRemote.getD 0
        rotXRemote2 := rotXRemote2.getD 0 }
  | _ => .error (.node (.argumentCount (args.length + 2)))

-- The longest time, in microseconds, that pairs of a minimal fidelity in percent may take on
-- nitrogen-vacancy hardware.
def maxTimeFor (minFidelity : Int) : Checked Int :=
  if 0 ≤ minFidelity ∧ minFidelity ≤ 100 then .ok (100000 - minFidelity * 900)
  else .error .unmet

end CreateRequest

inductive LinkRequest
  | create (r : CreateRequest)
  | recv (kind : RequestType) (remoteNode purpose : Int)
  | stopRecv (kind : RequestType) (remoteNode purpose : Int)
  deriving DecidableEq

namespace LinkRequest

def kind : LinkRequest → RequestType
  | create r => r.kind
  | recv k _ _ => k
  | stopRecv k _ _ => k

def text : LinkRequest → String
  | create r => recordText "LinkLayerCreate" r.fields
  | recv k n p =>
    recordText "LinkLayerRecv"
      [("type", .member k.member), ("remote_node_id", .int n), ("purpose_id", .int p)]
  | stopRecv k n p =>
    recordText "LinkLayerStopRecv"
      [("type", .member k.member), ("remote_node_id", .int n), ("purpose_id", .int p)]

-- A set of bases in the newer interface, which has an enumeration of its own.
def basisField (newer : Member → Option Member) : LinkValue → Checked LinkValue
  | .member m => (newer m).elim (.error .malformed) fun n => .ok (.member n)
  | _ => .error .noAttribute

def commonFields (r : CreateRequest) : List (String × LinkValue) :=
  [("remote_node_id", .int r.remoteNode), ("minimum_fidelity", .int r.minFidelity),
   ("time_unit", .int r.timeUnit), ("max_time", .int r.maxTime), ("purpose_id", .int r.purpose),
   ("number", .int r.number), ("priority", .int r.priority), ("atomic", .int r.atomic),
   ("consecutive", .int r.consecutive)]

-- The title and the fields of a request in the newer interface. Its sets of bases have to be
-- members of their enumeration.
def convert (request : LinkRequest) (newer : Member → Option Member := some) :
    Checked (String × List (String × LinkValue)) :=
  match request.kind, request with
  | .keep, create r => .ok ("ReqCreateAndKeep", commonFields r)
  | .measure, create r => do
    let randomLocal ← basisField newer r.randomLocal
    let randomRemote ← basisField newer r.randomRemote
    return ("ReqMeasureDirectly", commonFields r ++
      [("random_basis_local", randomLocal), ("random_basis_remote", randomRemote),
       ("x_rotation_angle_local_1", .int r.rotXLocal1),
       ("y_rotation_angle_local", .int r.rotYLocal),
       ("x_rotation_angle_local_2", .int r.rotXLocal2),
       ("x_rotation_angle_remote_1", .int r.rotXRemote1),
       ("y_rotation_angle_remote", .int r.rotYRemote),
       ("x_rotation_angle_remote_2", .int r.rotXRemote2),
       ("probability_distribution_parameter_local_1", .int r.probLocal1),
       ("probability_distribution_parameter_remote_1", .int r.probRemote1),
       ("probability_distribution_parameter_local_2", .int r.probLocal2),
       ("probability_distribution_parameter_remote_2", .int r.probRemote2)])
  | .recv, recv _ n p =>
    .ok ("ReqReceive", [("remote_node_id", .int n), ("purpose_id", .int p)])
  | .keep, _ => .error .unmet
  | .measure, _ => .error .unmet
  | .recv, _ => .error .unmet
  | .prepare, r => .error (.link (.badRequest r.text))
  | .stopRecv, r => .error (.link (.badRequest r.text))

end LinkRequest

---- Responses

structure KeepOk where
  tag : ReturnType
  createId : LinkValue
  logicalQubit : LinkValue
  direction : LinkValue
  sequence : LinkValue
  purpose : LinkValue
  remoteNode : LinkValue
  goodness : LinkValue
  goodnessTime : LinkValue
  bellState : LinkValue
  deriving DecidableEq, Inhabited

structure MeasureOk where
  tag : ReturnType
  createId : LinkValue
  outcome : LinkValue
  basis : LinkValue
  direction : LinkValue
  sequence : LinkValue
  purpose : LinkValue
  remoteNode : LinkValue
  goodness : LinkValue
  bellState : LinkValue
  deriving DecidableEq

structure PrepareOk where
  tag : ReturnType
  createId : LinkValue
  outcome : LinkValue
  direction : LinkValue
  sequence : LinkValue
  purpose : LinkValue
  remoteNode : LinkValue
  goodness : LinkValue
  bellState : LinkValue
  deriving DecidableEq

structure LinkError where
  tag : ReturnType
  createId : LinkValue
  code : LinkValue
  useRange : LinkValue
  sequenceLow : LinkValue
  sequenceHigh : LinkValue
  originNode : LinkValue
  deriving DecidableEq

inductive Response
  | keep (r : KeepOk)
  | measure (r : MeasureOk)
  | prepare (r : PrepareOk)
  | error (r : LinkError)
  deriving DecidableEq

namespace Response

def tag : Response → ReturnType
  | keep r => r.tag
  | measure r => r.tag
  | prepare r => r.tag
  | error r => r.tag

def title : Response → String
  | keep _ => "LinkLayerOKTypeK"
  | measure _ => "LinkLayerOKTypeM"
  | prepare _ => "LinkLayerOKTypeR"
  | error _ => "LinkLayerErr"

def fields : Response → List (String × LinkValue)
  | keep r =>
    [("type", .member r.tag.member), ("create_id", r.createId),
     ("logical_qubit_id", r.logicalQubit), ("directionality_flag", r.direction),
     ("sequence_number", r.sequence), ("purpose_id", r.purpose),
     ("remote_node_id", r.remoteNode), ("goodness", r.goodness),
     ("goodness_time", r.goodnessTime), ("bell_state", r.bellState)]
  | measure r =>
    [("type", .member r.tag.member), ("create_id", r.createId),
     ("measurement_outcome", r.outcome), ("measurement_basis", r.basis),
     ("directionality_flag", r.direction), ("sequence_number", r.sequence),
     ("purpose_id", r.purpose), ("remote_node_id", r.remoteNode), ("goodness", r.goodness),
     ("bell_state", r.bellState)]
  | prepare r =>
    [("type", .member r.tag.member), ("create_id", r.createId),
     ("measurement_outcome", r.outcome), ("directionality_flag", r.direction),
     ("sequence_number", r.sequence), ("purpose_id", r.purpose),
     ("remote_node_id", r.remoteNode), ("goodness", r.goodness), ("bell_state", r.bellState)]
  | error r =>
    [("type", .member r.tag.member), ("create_id", r.createId), ("error_code", r.code),
     ("use_sequence_number_range", r.useRange), ("sequence_number_low", r.sequenceLow),
     ("sequence_number_high", r.sequenceHigh), ("origin_node_id", r.originNode)]

def text (r : Response) : String :=
  recordText r.title r.fields

def values (r : Response) : List (Option Int) :=
  r.fields.map fun (_, v) => some v.number

def route? : Response → Option (Int × Int × Int)
  | keep r => some (r.purpose.number, r.remoteNode.number, r.direction.number)
  | measure r => some (r.purpose.number, r.remoteNode.number, r.direction.number)
  | prepare r => some (r.purpose.number, r.remoteNode.number, r.direction.number)
  | error _ => none

def creator (localNode : Int) (r : Response) : Checked Int :=
  match r.route? with
  | none => .error .noAttribute
  | some (_, remote, direction) => .ok (if direction = 1 then remote else localNode)

end Response

inductive NewResponse
  | keep (fields : List (String × LinkValue))
  | measure (fields : List (String × LinkValue))
  | prepare (fields : List (String × LinkValue))
  | error (fields : List (String × LinkValue))
  | former (r : Response)
  deriving DecidableEq

namespace NewResponse

-- A field of a record, or zero.
def get (fields : List (String × LinkValue)) (name : String) : LinkValue :=
  (fields.lookup name).getD (.int 0)

def text : NewResponse → String
  | keep fs => recordText "ResCreateAndKeep" fs
  | measure fs => recordText "ResMeasureDirectly" fs
  | prepare fs => recordText "ResRemoteStatePrep" fs
  | error fs => recordText "ResError" fs
  | former r => r.text

-- A basis by the number of the newer interface's.
def basisOf : LinkValue → LinkValue
  | .member m => .member { m with enumeration := "Basis" }
  | v => v

def convert : NewResponse → Checked Response
  | keep fs => .ok (.keep {
      tag := .okKeep
      createId := get fs "create_id"
      logicalQubit := get fs "logical_qubit_id"
      direction := get fs "directionality_flag"
      sequence := get fs "sequence_number"
      purpose := get fs "purpose_id"
      remoteNode := get fs "remote_node_id"
      goodness := get fs "goodness"
      goodnessTime := get fs "time_of_goodness"
      bellState := get fs "bell_state" })
  | measure fs => .ok (.measure {
      tag := .okMeasure
      createId := get fs "create_id"
      outcome := get fs "measurement_outcome"
      basis := basisOf (get fs "measurement_basis")
      direction := get fs "directionality_flag"
      sequence := get fs "sequence_number"
      purpose := get fs "purpose_id"
      remoteNode := get fs "remote_node_id"
      goodness := get fs "goodness"
      bellState := get fs "bell_state" })
  | error fs => .ok (.error {
      tag := .err
      createId := get fs "create_id"
      code := get fs "error_code"
      useRange := get fs "use_sequence_number_range"
      sequenceLow := get fs "sequence_number_low"
      sequenceHigh := get fs "sequence_number_high"
      originNode := get fs "origin_node_id" })
  | prepare fs => .error (.link (.badResponse (text (prepare fs))))
  | former r => .error (.link (.badResponse r.text))

end NewResponse

end QuantumNode
