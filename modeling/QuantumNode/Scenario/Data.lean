import QuantumNode.Assembly.Assemble
import QuantumNode.Document.Json
import QuantumNode.Link
import QuantumNode.Memory

/-
  How scenarios write the values of this library as data, and how they report operands,
  instructions, drafts and subroutines.
-/

namespace QuantumNode.Scenario
variable (d : Datum)

def intField (name : String) (default : Int) : Int :=
  (d.field name).intD default

def flagField (name : String) : Bool :=
  (d.field name).isTrue

def flagOr (name : String) : Bool :=
  match d.field name with
  | .bool b => b
  | _ => true

def textField (name : String) : String :=
  (d.field name).textD

def flavourOf : Flavour :=
  if textField d "flavour" = "nv" then .nv else .vanilla

def bytesOf : Bytes :=
  Bytes.ofHex d.textD.toList

def hostLineOf? : Datum → Option HostLine
  | .list [.text file, .int n] => some ⟨file, n⟩
  | _ => none

def lineOf? : Option HostLine :=
  hostLineOf? (d.field "line")

def blockOf : List (Option Int) :=
  d.items.map Datum.int?

def regOf : Checked Reg :=
  Reg.parse d.textD.toList

def indexOf : Checked Index :=
  match d.items with
  | [.text "reg", r] => do return .reg (← regOf r)
  | [_, .int v] => .ok (.int v)
  | _ => .ok (.int (d.intD 0))

def operandOf : Checked Operand :=
  match d.items with
  | [.text "reg", r] => do return .reg (← regOf r)
  | [.text "imm", .int v] => .ok (.imm v)
  | [.text "int", .int v] => .ok (.int v)
  | [.text "addr", .int v] => .ok (.addr v)
  | [.text "entry", .int a, i] => do return .entry a (← indexOf i)
  | [.text "slice", .int a, i, k] => do return .slice a (← indexOf i) (← indexOf k)
  | [.text "label", .text n] => .ok (.label n)
  | [.text "template", .text n] => .ok (.template n)
  | _ => .error .mistyped

def sliceOf? : Datum → Option Slice
  | .list [lo, hi] => some ⟨lo.int?, hi.int?, none⟩
  | .list [lo, hi, step] => some ⟨lo.int?, hi.int?, step.int?⟩
  | _ => none

def linkValueOf : Datum → LinkValue
  | .bool b => .flag b
  | d => .int (d.intD 0)

def linkReport : LinkValue → Report
  | .int v => .int v
  | .flag b => .bool b
  | .member m => .text m.path

def tagOf (default : ReturnType) : Checked ReturnType :=
  match d.field? "type" with
  | none => .ok default
  | some v =>
    match ReturnType.ofValue? (v.intD (-1)) with
    | some t => .ok t
    | none => .error .malformed

def memberField (name enumeration : String) (names : List String) : Checked LinkValue :=
  match memberOf? enumeration names (intField d name 0) with
  | some m => .ok (.member m)
  | none => .error .malformed

def successFields : List String :=
  ["create_id", "directionality_flag", "sequence_number", "purpose_id", "remote_node_id",
   "goodness", "bell_state"]

def plainFields (names : List String) : List (String × LinkValue) :=
  names.map fun name => (name, linkValueOf (d.field name))

def responseOf : Checked NewResponse := do
  let value (name : String) : LinkValue := linkValueOf (d.field name)
  match textField d "t" with
  | "K" =>
    return .former (.keep {
      tag := ← tagOf d .okKeep
      createId := value "create_id"
      logicalQubit := value "logical_qubit_id"
      direction := value "directionality_flag"
      sequence := value "sequence_number"
      purpose := value "purpose_id"
      remoteNode := value "remote_node_id"
      goodness := value "goodness"
      goodnessTime := value "goodness_time"
      bellState := value "bell_state" })
  | "M" =>
    return .former (.measure {
      tag := ← tagOf d .okMeasure
      createId := value "create_id"
      outcome := value "measurement_outcome"
      basis := value "measurement_basis"
      direction := value "directionality_flag"
      sequence := value "sequence_number"
      purpose := value "purpose_id"
      remoteNode := value "remote_node_id"
      goodness := value "goodness"
      bellState := value "bell_state" })
  | "R" =>
    return .former (.prepare {
      tag := ← tagOf d .okPrepare
      createId := value "create_id"
      outcome := value "measurement_outcome"
      direction := value "directionality_flag"
      sequence := value "sequence_number"
      purpose := value "purpose_id"
      remoteNode := value "remote_node_id"
      goodness := value "goodness"
      bellState := value "bell_state" })
  | "E" =>
    return .former (.error {
      tag := ← tagOf d .err
      createId := value "create_id"
      code := value "error_code"
      useRange := value "use_sequence_number_range"
      sequenceLow := value "sequence_number_low"
      sequenceHigh := value "sequence_number_high"
      originNode := value "origin_node_id" })
  | "K1" => return .keep (plainFields d (successFields ++ ["logical_qubit_id", "time_of_goodness"]))
  | "M1" =>
    let basis ← memberField d "measurement_basis" "MeasurementBasis" basisNames
    return .measure (plainFields d (successFields ++ ["measurement_outcome"])
      ++ [("measurement_basis", basis)])
  | "R1" =>
    let basis ← memberField d "measurement_basis" "MeasurementBasis" basisNames
    return .prepare (plainFields d (successFields ++ ["measurement_outcome"])
      ++ [("measurement_basis", basis)])
  | "E1" =>
    let code ← memberField d "error_code" "ErrorCode" linkErrorNames
    return .error ([("create_id", value "create_id"), ("error_code", code)]
      ++ plainFields d ["use_sequence_number_range", "sequence_number_low", "sequence_number_high"]
      ++ [("origin_node_id", if (d.field? "origin_node_id").isSome then value "origin_node_id"
            else .int 1)])
  | _ => throw .mistyped

def responsesOf : Checked (List NewResponse) :=
  d.items.mapM responseOf

def kindOf (default : RequestType) : Checked RequestType :=
  match d.field? "type" with
  | none => .ok default
  | some v =>
    match RequestType.ofValue? (v.intD (-1)) with
    | some t => .ok t
    | none => .error .malformed

def requestOf (kind : String) (d : Datum) : Checked LinkRequest := do
  match kind with
  | "recv" =>
    return .recv (← kindOf d .recv) (intField d "remote_node_id" 0) (intField d "purpose_id" 0)
  | "stop_recv" =>
    return .stopRecv (← kindOf d .stopRecv) (intField d "remote_node_id" 0)
      (intField d "purpose_id" 0)
  | _ =>
    return .create {
      remoteNode := intField d "remote_node_id" 0
      purpose := intField d "purpose_id" 0
      kind := ← kindOf d .keep
      number := intField d "number" 1
      randomLocal := ← memberField d "random_basis_local" "RandomBasis" randomBasisNames
      randomRemote := ← memberField d "random_basis_remote" "RandomBasis" randomBasisNames
      minFidelity := intField d "minimum_fidelity" 0
      timeUnit := intField d "time_unit" 0
      maxTime := intField d "max_time" 0
      priority := intField d "priority" 0
      atomic := intField d "atomic" 0
      consecutive := intField d "consecutive" 0
      probLocal1 := intField d "probability_dist_local1" 0
      probLocal2 := intField d "probability_dist_local2" 0
      probRemote1 := intField d "probability_dist_remote1" 0
      probRemote2 := intField d "probability_dist_remote2" 0
      rotXLocal1 := intField d "rotation_X_local1" 0
      rotYLocal := intField d "rotation_Y_local" 0
      rotXLocal2 := intField d "rotation_X_local2" 0
      rotXRemote1 := intField d "rotation_X_remote1" 0
      rotYRemote := intField d "rotation_Y_remote" 0
      rotXRemote2 := intField d "rotation_X_remote2" 0 }

def hexReport (bs : Bytes) : Report :=
  .text bs.hex

def optionReport {α : Type} (f : α → Report) : Option α → Report
  | some a => f a
  | none => .null

def operandKind : Operand → String
  | .reg _ => "Register"
  | .imm _ => "Immediate"
  | .int _ | .shown _ _ => "int"
  | .addr _ => "Address"
  | .entry _ _ => "ArrayEntry"
  | .slice _ _ _ => "ArraySlice"
  | .label _ => "Label"
  | .template _ => "Template"

def operandReport (o : Operand) : Report :=
  .texts [operandKind o, o.text]

def instrText (i : Instr) : String :=
  match i with
  | .op family op _ _ => family.name ++ "." ++ op.label ++ "Instruction " ++ i.text
  | .note _ => "base.DebugInstruction " ++ i.text

def instrReport (i : Instr) : Report :=
  .text (instrText i)

def lineReport : Option HostLine → Report :=
  optionReport fun l => .list [.text l.file, .int l.number]

def versionReport : Option Version → Report :=
  optionReport fun v => .list [.int v.major, .int v.minor]

def shortSubroutine (s : Subroutine) : List (String × Report) :=
  [("version", versionReport s.version), ("app_id", .option s.appId),
   ("arguments", .texts s.arguments), ("instrs", .list (s.instrs.map instrReport)),
   ("hex", .ofChecked hexReport s.encode)]

def fullSubroutine (s : Subroutine) : List (String × Report) :=
  shortSubroutine s ++
  [("len", .int s.instrs.length), ("text", .text s.text),
   ("writes", .list (s.instrs.map fun i => .texts (i.writes.map Reg.text)))]

def shortDraft (d : Draft) : List (String × Report) :=
  [("version", versionReport d.version), ("app_id", .option d.appId),
   ("arguments", .texts d.arguments), ("commands", .texts (d.items.map Item.text))]

def valuesOf : List (String × Int) :=
  d.fields.map fun (k, v) => (k, v.intD 0)

end QuantumNode.Scenario
