import QuantumNode.Scenario.Script

/-
  Scenarios in a session: an application writes programs step by step and sends them to its node.
-/

namespace QuantumNode.Scenario
open Session

---- Answers

-- What a step answers: a value, how it is shown if not as usual, and the reports of a block.
structure Answer where
  value : Value
  shown : Option Report
  body : Option (List Report)

def Answer.plain (v : Value) : Answer :=
  ⟨v, none, none⟩

def Answer.report (r : Report) : Answer :=
  ⟨.none, some r, none⟩

def done (x : SessionM Unit) : ScriptM Answer := do
  x
  return .plain .none

def collecting {α : Type} (block : ScriptM α) : ScriptM (α × List Report) := do
  let outer := (← getThe Script).reports
  modifyThe Script fun s => { s with reports := [] }
  let a ← block
  let inner := (← getThe Script).reports
  modifyThe Script fun s => { s with reports := outer }
  return (a, inner)

def noting (reports : List Report) : ScriptM Unit :=
  modifyThe Script fun s => { s with reports := s.reports ++ reports }

def introduceVariable (name : String) (v : Value) : ScriptM Unit := do
  assign name v
  noting [valueReport (← getThe Session) v]

def blockAnswer (block : ScriptM Unit) : ScriptM Answer := do
  return ⟨.none, none, some (← collecting block).2⟩

abbrev Runner := List Datum → ScriptM (List Report)

variable (run : Runner) (d : Datum)

def runBody (name : String) : ScriptM Unit := do
  noting (← run (d.field name).items)

---- Qubits

def named (names : List (String × Op)) (name : String) : Checked Op :=
  (names.lookup name).elim (.error .noAttribute) .ok

def gateNames : List (String × Op) := [
  ("X", .x), ("Y", .y), ("Z", .z), ("T", .t), ("H", .h), ("K", .k), ("S", .s), ("reset", .init),
  ("free", .qfree)]

def axisNamed : Checked Axis :=
  match d with
  | .null | .text "Z" => .ok .z
  | .text "X" => .ok .x
  | .text "Y" => .ok .y
  | _ => .error .noKey

def rotationNames : List (String × Op) := [("X", .rotX), ("Y", .rotY), ("Z", .rotZ)]

def floatOf : Datum → Float
  | .float x => x
  | d => Float.ofInt (d.intD 0)

def floatField (name : String) (default : Float) : Float :=
  match d.field name with
  | .null => default
  | v => floatOf v

def qubitStep : ScriptM Answer := do
  let address ← argument d "virtual_address"
  let q ← createQubit (flagOr d "add_new_command") .nothing address.int?
  return .plain (.qubit q)

def gateStep : ScriptM Answer := do
  let q ← qubitArgument d "q"
  done (gateOn (← named gateNames (textField d "g")) q)

def rotationStep : ScriptM Answer := do
  let q ← qubitArgument d "q"
  let n ← argumentOr d "n" (.int 0)
  let e ← argumentOr d "d" (.int 0)
  let op ← named rotationNames (textField d "axis")
  let address := (← qubitCell q).address
  match d.field "angle" with
  | .null => done (rotation op address n e)
  | angle => done (rotationBy op address (floatOf angle))

def twoStep : ScriptM Answer := do
  let q ← qubitArgument d "q"
  let t ← qubitArgument d "t"
  let op ← named [("cnot", .cnot), ("cphase", .cphase)] (textField d "g")
  done (gateOnTwo op q t)

def measureStep : ScriptM Answer := do
  let q ← qubitArgument d "q"
  let future ← argument d "future"
  let axis ← axisNamed (d.field "basis")
  let rotations ← match d.field "rotations" with
    | .list rs => do
      let values ← rs.mapM evaluate
      let operands : SessionM (List Operand) := values.mapM Session.operandOf
      pure (some (← operands))
    | _ => pure none
  let result ← measure q future (flagField d "inplace") (flagOr d "store_array") axis rotations
  return .plain result

def qubitsArgument (name : String) : ScriptM (List Nat) :=
  (d.field name).items.mapM fun v => do
    match ← evaluate v with
    | .qubit q => return q
    | _ => throw .noAttribute

---- Arrays and futures

def arrayStep : ScriptM Answer := do
  let length ← argumentOr d "length" (.int 1)
  let init ← match d.field "init_values" with
    | .list vs => do pure (some (← vs.mapM evaluate))
    | _ => pure none
  return .plain (.array (← Session.newArray length init))

def sliceStep : ScriptM Answer := do
  let a ← arrayArgument d "array"
  let parts ← (d.field "slice").items.mapM evaluate
  return .plain (.list ((← sliceFutures a parts).map Value.future))

def itemStep : ScriptM Answer := do
  let v ← argument d "array"
  let index ← argument d "index"
  return .plain (← entryOf v index)

def arithmeticNames : List (String × BinaryOp) := [
  ("add", .add), ("sub", .sub), ("mul", .mul), ("floordiv", .floorDiv), ("truediv", .trueDiv),
  ("mod", .mod), ("divmod", .divMod), ("and", .and), ("or", .or), ("xor", .xor),
  ("lshift", .shiftLeft), ("rshift", .shiftRight)]

def comparisonNames : List (String × BinaryOp) :=
  [("eq", .eq), ("ne", .ne), ("lt", .lt), ("le", .le), ("gt", .gt), ("ge", .ge)]

def binaryNamed? (method : String) : Option (BinaryOp × Bool) :=
  let named (start : String) (names : List (String × BinaryOp)) : Option BinaryOp :=
    (names.find? fun (name, _) => method = start ++ name ++ "__").map Prod.snd
  match named "__" (arithmeticNames ++ comparisonNames) with
  | some op => some (op, false)
  | none => (named "__r" (("pow", .pow) :: arithmeticNames)).map (·, true)

def unaryNamed? : String → Option UnaryOp
  | "__int__" | "__pos__" | "__ceil__" | "__floor__" | "conjugate" => some .same
  | "__abs__" => some .abs
  | "__neg__" => some .neg
  | "__invert__" => some .invert
  | "__bool__" => some .isTrue
  | "__float__" => some .toFloat
  | "bit_length" => some .bitLength
  | "__hash__" => some .hash
  | _ => none

def numberAttributes : List String :=
  ["denominator", "imag", "numerator", "real"]

def applyMethod (method : String) (v : Value) (arguments : List Value) : SessionM Value :=
  match binaryNamed? method, unaryNamed? method with
  | some (op, reversed), _ => applyBinary op reversed v arguments
  | none, some op => applyUnary op v arguments
  | none, none =>
    if method = "__pow__" then applyPower v arguments
    else if method = "__round__" then applyRound v arguments
    else if numberAttributes.contains method then applyAttribute v
    else throw .noAttribute

def numberStep : ScriptM Answer := do
  let v ← argument d "f"
  let arguments ← (d.field "args").items.mapM evaluate
  match v, textField d "m" with
  | .array a, "__len__" => return .plain (.int a.length)
  | .future _, "__index__" | .future _, "__trunc__" => return .plain (.int 0)
  | v, "__str__" => return .plain (.text (← valueWords v))
  | v, "__repr__" => return .plain (.text (← valueDetails v))
  | v, method => return .plain (← applyMethod method v arguments)

---- Blocks

def conditionNames : List (String × Op) :=
  [("eq", .beq), ("ne", .bne), ("lt", .blt), ("ge", .bge), ("ez", .bez), ("nz", .bnz)]

def isFuture : Value → Bool
  | .future _ => true
  | _ => false

def ifStep : ScriptM Answer := do
  let a ← argument d "a"
  let b ← argument d "b"
  let op ← named conditionNames (textField d "cond")
  if textField d "style" = "fn" then
    blockAnswer (ifBody op a b (runBody run d "body"))
  else
    if !isFuture a then throw .noAttribute
    blockAnswer (ifBlock op a b (runBody run d "body"))

def textOr (name default : String) : String :=
  match d.field name with
  | .text t => t
  | _ => default

def rangeArgument : ScriptM LoopRange := do
  let start ← argumentOr d "start" (.int 0)
  let stop ← argument d "stop"
  let step ← argumentOr d "step" (.int 1)
  return ⟨← Session.operandOf start, ← Session.operandOf stop, ← Session.operandOf step⟩

def loopStep : ScriptM Answer := do
  let range ← rangeArgument d
  let wanted ← argument d "loop_register"
  let name := textOr d "var" "i"
  if textField d "style" = "fn" then
    let r ← loopRegister? wanted
    blockAnswer (loopBody range r fun index => do
      introduceVariable name (.future index)
      runBody run d "body")
  else
    blockAnswer (loopBlock range wanted fun r => do
      introduceVariable name (.reg r)
      runBody run d "body")

def foreachStep (counted : Bool) (d : Datum) : ScriptM Answer := do
  let a ← arrayArgument d "array"
  blockAnswer (foreachBlock a fun r entry => do
    if counted then introduceVariable (textOr d "ivar" "i") (.reg r)
    introduceVariable (textOr d "var" "v") (.future entry)
    runBody run d "body")

def constraintArgument : ScriptM (Option Constraint) := do
  match d.field? "future" with
  | some f =>
    let value ← evaluate f
    return some (.atMost value (← argument d "value"))
  | none => return if flagField d "bad" then some .other else none

def cleanupOf : ScriptM Unit := do
  match d.field? "cleanup" with
  | some steps => noting [.list (← run steps.items)]
  | none => return ()

def untilStep : ScriptM Answer := do
  let rounds ← argument d "max"
  let limit ← Session.operandOf rounds
  blockAnswer (untilBlock limit fun index => do
    noting [futureById (← getThe Session) index]
    runBody run d "body"
    let constraint ← constraintArgument d
    return ((), constraint, cleanupOf run d))

def routineOf (steps : List Datum) (q pair : Nat) : ScriptM Unit := do
  let (_, reports) ← collecting do
    introduceVariable "q" (.qubit q)
    introduceVariable "pair" (.future pair)
    noting (← run steps)
  noting [.list reports]

def pairAnswer : ScriptM Answer := do
  match d.field? "post" with
  | none => return .plain (← pairStep d none)
  | some steps =>
    let (v, body) ← collecting (pairStep d (some (routineOf run steps.items)))
    return ⟨v, none, some body⟩

def pairsBlockAnswer : ScriptM Answer :=
  blockAnswer (pairsBlockStep d fun q pair => do
    introduceVariable "q" q
    introduceVariable "pair" pair
    runBody run d "body")

---- Programs

def trackedFields (lines : List (Option HostLine))
    (text : String) : ScriptM (List (String × Report)) := do
  if (← getThe Session).tracker.isNone then return []
  return [("lines", .list (lines.map lineReport)), ("text", .text text)]

def popStep : ScriptM Answer := do
  match ← popDraft with
  | none => return .plain .none
  | some d =>
    let more ← trackedFields (d.items.map Item.line) d.text
    return ⟨.draft d, some (.record (shortDraft d ++ more)), none⟩

def assembleStep : ScriptM Answer := do
  match ← argument d "proto" with
  | .draft draft =>
    let id ← compileDraft draft
    let p ← programAt id
    let more ← trackedFields (p.instrs.map Instr.line) p.text
    let committed := (← getThe Session).committed.length
    let count := if more.isEmpty then [] else [("committed", Report.int committed)]
    return ⟨.program id, some (.record (shortSubroutine p ++ more ++ count)), none⟩
  | _ => throw .noAttribute

def compileStep : ScriptM Answer := do
  match ← compile with
  | some id => return .plain (.program id)
  | none => return .plain .none

def instantiateStep : ScriptM Answer := do
  let id ← programArgument d "sub"
  let values := match d.field "args" with
    | .null => none
    | args => some (valuesOf args)
  instantiate id (intField d "app_id" 0) values
  return .plain (.program id)

def breakpointActions : List String := ["NOP", "DUMP_LOCAL_STATE", "DUMP_GLOBAL_STATE"]

def breakpointRoles : List String := ["CREATE", "RECEIVE"]

def placeOf (names : List String) (name : String) : Checked Int :=
  match names.findIdx? fun n => n == name with
  | some i => .ok i
  | none => .error .noKey

def breakpointStep : ScriptM Answer := do
  let action ← placeOf breakpointActions (textField d "action")
  let role ← placeOf breakpointRoles (textOr d "role" "CREATE")
  done (emit .breakpoint [.int action, .int role])

def newAppStep : ScriptM Answer := do
  let app := textOr d "app_name" "alice"
  let s ← getThe Session
  let (id, registry) ← s.registry.enter app (d.field "app_id").int?
  let registry := registry.name app id app
  modifyThe Session fun s => { s with registry := registry }
  let ids := registry.ids.map fun (app, ids) => (app, intList ids)
  return .plain (.list [.int id, .record ids])

def closingOf : Closing :=
  ⟨flagOr d "clear_app", flagField d "stop_backend", flagField d "exception"⟩

def setAddressStep : ScriptM Answer := do
  let q ← qubitArgument d "q"
  let cell ← qubitCell q
  match ← argument d "id" with
  | .future f => done (setQubit q { cell with address := .stored f })
  | v =>
    match v.int? with
    | some id => done (setQubit q { cell with address := .fixed id })
    | none => throw (.session .notAQubitId)

def setActiveStep : ScriptM Answer := do
  let q ← qubitArgument d "q"
  match ← argument d "value" with
  | .bool b => done (setActive q b)
  | _ => throw (.session .notAFlag)

def checkActiveStep : ScriptM Answer := do
  let cell ← qubitCell (← qubitArgument d "q")
  if cell.active then return .plain .none
  throw (.session (.inactiveQubit (← valueText (addressValue cell.address))))

---- Routines

def toffoliStep : ScriptM Answer := do
  match ← qubitsArgument d "qs" with
  | [a, b, c] => done (toffoli a b c)
  | _ => throw .mistyped

def messagesOf? (name : String) : Option (List String) :=
  match d.field name with
  | .list ms => some (ms.map Datum.textD)
  | _ => none

def optionalSocket (name : String) : ScriptM (Option Nat) := do
  match d.field name with
  | .null => return none
  | _ => return some (← socketArgument d name)

def ghzStep : ScriptM Answer := do
  let chain : Session.Chain := ⟨← optionalSocket d "down_epr_socket",
    ← optionalSocket d "up_epr_socket", messagesOf? d "down_socket",
    (messagesOf? d "up_socket").isSome⟩
  let (q, m, sent) ← createGhz chain (flagField d "do_corrections")
  let down := if chain.fromBelow.isSome then [Report.list [.text "down_socket", .list []]] else []
  let up := if chain.canSendUp then [Report.list [.text "up_socket", .texts sent]] else []
  return ⟨.list [.qubit q, m], none, some (down ++ up)⟩

def preparation : ScriptM Nat := do
  let _ ← run (d.field "prep").items
  qubitArgument d "q"

def checkProgress (iterations : Int) : Checked Unit :=
  if !flagField d "progress" then .ok ()
  else if iterations < 0 then .error .unmet
  else if iterations = 0 then .error (.unexplained .divisionByZero)
  else .ok ()

def tomographyStep : ScriptM Answer := do
  let iterations := intField d "iterations" 100
  checkProgress d iterations
  let averages ← tomography (preparation run d) iterations
  return .plain (.record (averages.map fun (axis, x) => (String.singleton axis, .float x)))

def testPreparationStep : ScriptM Answer := do
  let iterations := intField d "iterations" 100
  let confidence := floatField d "conf" 2.0
  let _ ← tolerance confidence iterations
  checkProgress d iterations
  let passed ← testPreparation (preparation run d) ((d.field "exp").items.map floatOf)
    confidence iterations
  return .plain (.bool passed)

---- Steps

def sessionStep : ScriptM Answer := do
  match textField d "do" with
  | "pop" => popStep
  | "assemble" => assembleStep d
  | "compile" => compileStep
  | "instantiate" => instantiateStep d
  | "commit" => done (commit (← programArgument d "sub"))
  | "flush" => done flush
  | "close" => done (close (closingOf d))
  | "exit" => done (close ⟨true, true, false⟩)
  | "block" => throw (.unexplained .unimplemented)
  | "clear" => done clear
  | "new_app_id" => newAppStep d
  | "app_names" =>
    let names := (← getThe Session).registry.names.map fun (node, apps) =>
      (node, Value.record (apps.map fun (id, app) => (toString id, .text app)))
    return .plain (.record names)
  | "active_qubits" =>
    return .plain (.list ((← getThe Session).allocation.qubits.map Value.qubit))
  | "node_name" => return .plain (.text (← nodeName (← argument d "id")))
  | "set_app_id" =>
    let id := intField d "id" (intField d "app_id" 0)
    done (modify fun s => { s with appId := id })
  | "breakpoint" => breakpointStep d
  | "mem" => return .report (optionReport stateReport (← getThe Session).backend)
  | _ => throw .noAttribute

def plainStep : ScriptM Answer := do
  match textField d "do" with
  | "qubit" => qubitStep d
  | "gate" => gateStep d
  | "rot" => rotationStep d
  | "two" => twoStep d
  | "measure" => measureStep d
  | "array" => arrayStep d
  | "reg" => return .plain (.future (← newRegister (← argumentOr d "init_value" (.int 0))))
  | "fut" =>
    let a ← arrayArgument d "array"
    let index ← argument d "index"
    return .plain (.future (← Session.futureAt a index))
  | "slice" => sliceStep d
  | "add" =>
    let f ← futureArgument d "f"
    let other ← argument d "other"
    let modulus ← argument d "mod"
    done (Session.increase f other modulus)
  | "undefine" => done (undefine (← arrayArgument d "array"))
  | "entry" => return .report (operandReport (← addressEntry (← futureArgument d "f")))
  | "value" =>
    return .plain (optionValue (← valueOf (← futureArgument d "f")))
  | "str" => return .plain (.text (← valueWords (← argument d "x")))
  | "repr" => return .plain (.text (← valueDetails (← argument d "x")))
  | "get" => return .plain (← argument d "x")
  | "int" => numberStep d
  | "item" => itemStep d
  | "set_id" => setAddressStep d
  | "set_active" => setActiveStep d
  | "assert_active" => checkActiveStep d
  | "t_inverse" => done (inverseT (← qubitArgument d "q"))
  | "toffoli" => toffoliStep d
  | "parity" =>
    return .plain (← parity (← qubitsArgument d "qs") (textField d "bases").toList)
  | "set_state" =>
    done (setState (← qubitArgument d "q") (floatField d "phi" 0) (floatField d "theta" 0))
  | "ghz" => ghzStep d
  | _ => sessionStep d

def stepWith : ScriptM Answer := do
  match textField d "do" with
  | "if" => ifStep run d
  | "loop" => loopStep run d
  | "foreach" => foreachStep run false d
  | "enumerate" => foreachStep run true d
  | "until" => untilStep run d
  | "try" => blockAnswer (plainBlock (runBody run d "body"))
  | "epr" => pairAnswer run d
  | "epr_ctx" => pairsBlockAnswer run d
  | "tomography" => tomographyStep run d
  | "test_prep" => testPreparationStep run d
  | _ => plainStep d

def inFrame {α : Type} (x : ScriptM α) : ScriptM α := do
  let frames := (← getThe Session).frames
  modifyThe Session fun s => { s with frames := (lineOf? d).toList ++ frames }
  try x finally modifyThe Session fun s => { s with frames := frames }

def answerReport (a : Answer) : ScriptM Report := do
  if let .text name := d.field "as" then assign name a.value
  let s ← getThe Session
  let body := match a.body with
    | some reports => [("body", Report.list reports)]
    | none => []
  return .outcome (.ok (a.shown.getD (valueReport s a.value))) (body ++ [("s", sessionReport s)])

def scriptStep : Nat → Datum → ScriptM Report
  | 0, _ => throw .mistyped
  | depth + 1, d => do
    let a ← inFrame d (stepWith (fun steps => steps.mapM (scriptStep depth)) d)
    answerReport d a

mutual

def stepDepth : Datum → Nat
  | .list items => stepDepths items
  | .table entries => entryDepths entries + 1
  | _ => 0

def stepDepths : List Datum → Nat
  | [] => 0
  | d :: rest => max (stepDepth d) (stepDepths rest)

def entryDepths : List (Datum × Datum) → Nat
  | [] => 0
  | (_, v) :: rest => max (stepDepth v) (entryDepths rest)

end

---- Scenarios

def effectFields (s : Session) : List (String × Report) :=
  let messages := if s.sent.isEmpty then [] else [("msgs", Report.list (s.sent.map hexReport))]
  match s.backend with
  | none => messages
  | some node =>
    let events := if node.events.isEmpty then []
      else [("events", Report.list (node.events.map eventReport))]
    let state := if s.sent.isEmpty then [] else [("mem", stateReport node)]
    messages ++ events ++ state

def rested (s : Session) : Session :=
  { s with
    sent := []
    backend := s.backend.map fun node => { node with events := [], budget := Node.stepBudget } }

def topStep (script : Script) (d : Datum) : Report × Bool × Script :=
  let before := { script with session := rested script.session, reports := [] }
  let (result, after) := (scriptStep (stepDepth d + 1) d).run before
  let effects := effectFields after.session
  match result with
  | .ok (.outcome (.ok r) fields) =>
    (.outcome (.ok r) (fields ++ effects), true, after)
  | .ok r => (r, true, after)
  | .error f =>
    (.outcome (.error f) (("s", sessionReport after.session) :: effects), false, after)

def topSteps (keepGoing : Bool) : Script → List Datum → List Report
  | _, [] => []
  | script, d :: rest =>
    let (report, carriedOut, script) := topStep script d
    if carriedOut || keepGoing then report :: topSteps keepGoing script rest else [report]

def defaultNodes : List (String × Int) := [("alice", 0), ("bob", 1), ("charlie", 2)]

def plainValue : Datum → Value
  | .bool b => .bool b
  | .int v => .int v
  | .float x => .float x
  | .text s => .text s
  | _ => .none

def socketOf : Checked (PairSocket × Bool) := do
  let fidelity := match d.field? "min_fidelity" with
    | some v => plainValue v
    | none => .int 100
  let socket ← socketFor (textField d "remote") (intField d "id" 0)
    (intField d "remote_id" 0) fidelity
  return (socket, !flagField d "unregistered")

def hardwareOf : Checked (Option Hardware) :=
  match d with
  | .list [.text "nv", .int n] => do return some (← Hardware.nitrogenVacancy n)
  | .list [.text "generic", .int n] => do return some (← Hardware.generic n)
  | _ => .ok none

def backendOf (conn : Datum) (name : String)
    (nodes : List (String × Int)) : Checked (Option Node) := do
  if textField conn "kind" ≠ "local" then return none
  let node := Node.fresh name ((nodes.lookup name).getD 0) (flavourOf conn) false true
  return some { node with
    outcomes := (d.field "meas").items.map fun v => v.intD 0
    arrivals := ← responsesOf (d.field "epr") }

def planOf : Checked Plan := do
  let conn := d.field "conn"
  let sockets ← (d.field "sockets").items.mapM socketOf
  let hardware ← hardwareOf (conn.field "hardware")
  let nodes := match d.field? "nodes" with
    | some t => t.fields.map fun (k, v) => (k, v.intD 0)
    | none => defaultNodes
  let app := textOr conn "app_name" "alice"
  let node := (conn.field "node_name").text?
  return {
    app := app
    node := node
    appId := (conn.field "app_id").int?
    maxQubits := intField conn "max_qubits" 5
    hardware := hardware
    mapped := textField conn "compiler" = "nv"
    returnsArrays := flagOr conn "return_arrays"
    nodeIds := nodes
    reachable := textField conn "kind" ≠ "mute"
    backend := ← backendOf d conn (node.getD app) nodes
    sockets := sockets }

def currentDirectory : String := "/"

def tracked (s : Session) : Checked Session := do
  match (d.field "conn").field "track" with
  | .null => return s
  | track =>
    let tracker ← Tracker.ofDirectories currentDirectory (track.field "app_dir").text?
      ((track.field "lib_dirs").items.map Datum.textD)
    return { s with tracker := some tracker }

def startVariables : Table String Value :=
  let sockets := (d.field "sockets").items.zipIdx.map fun (socket, n) =>
    (textField socket "as", Value.socket n)
  sockets.foldl (fun t (name, v) => Table.put name v t) [("conn", .session)]

def runSession : Checked Report := do
  let session ← tracked d (← start (← planOf d) .empty)
  let first := Report.record (effectFields session)
  let script : Script := ⟨session, startVariables d, []⟩
  let steps := topSteps (flagField d "keep_going") script (d.field "ops").items
  return .record [("steps", .list (first :: steps))]

end QuantumNode.Scenario
