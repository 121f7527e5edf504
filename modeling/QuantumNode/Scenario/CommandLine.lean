import QuantumNode.CommandLine.Program
import QuantumNode.Scenario.Host

/-
  Scenarios in a workspace: operations on applications, their files and their logs, and one command
  line in a directory of files. Times are hidden in reports: a time and the stamp of a time are
  replaced by words.
-/

namespace QuantumNode.Scenario
open Workspace

def fits : List Char → List Char → Bool
  | [], _ => true
  | _ :: _, [] => false
  | p :: pattern, c :: cs => (if p = '0' then c.isDigit else c = p) && fits pattern cs

def timeShape : List Char := "0000-00-00 00:00:00".toList

def fractionShape : List Char := ".000000".toList

def stampShape : List Char := "00000000-000000".toList

def hidden? (cs : List Char) : Option (Nat × String) :=
  if fits timeShape cs then
    let size := timeShape.length
    if fits fractionShape (cs.drop size) then some (size + fractionShape.length, "$TIME")
    else some (size, "$TIME")
  else if fits stampShape cs then some (stampShape.length, "$STAMP")
  else none

-- Replace hidden texts; some characters may still belong to the last one.
def maskChars : Nat → List Char → List Char
  | _, [] => []
  | skip + 1, _ :: rest => maskChars skip rest
  | 0, c :: rest =>
    match hidden? (c :: rest) with
    | some (size, word) => word.toList ++ maskChars (size - 1) rest
    | none => c :: maskChars 0 rest

def mask (s : String) : String :=
  String.ofList (maskChars 0 s.toList)

mutual

def maskDatum : Datum → Datum
  | .text s => .text (mask s)
  | .list items => .list (maskItems items)
  | .table entries => .table (maskEntries entries)
  | d => d

def maskItems : List Datum → List Datum
  | [] => []
  | d :: rest => maskDatum d :: maskItems rest

def maskEntries : List (Datum × Datum) → List (Datum × Datum)
  | [] => []
  | (k, v) :: rest => (maskDatum k, maskDatum v) :: maskEntries rest

end

def shownTop : String := "$DIR"

-- Any time; reports do not show it.
def sampleTime : String := "2000-01-01 00:00:00.000001"

def sampleStamp : String := "20000101-000000"

variable (d : Datum)

def filesOf : FileTree :=
  (d.field "files").fields.foldl (fun t (path, v) =>
    let place := (Path.parts path).filter (· ≠ "")
    match v with
    | .text s => t.plant place (.file (.text s))
    | _ => t.plant place .directory) (.empty shownTop)

-- What is shown of a file: the size of a program, nothing of stored programs, or the text.
def contentReport (path : String) : FileContent → Report
  | .programs _ => .null
  | .text s =>
    if path.endsWith ".py" then .int s.utf8ByteSize
    else if path.endsWith ".pkl" then .null
    else .text (mask s)

def changeFields (before after : FileTree) : List (String × Report) :=
  let changed := after.entries.filter fun (p, e) =>
    match e, Table.get? p before.entries with
    | .file c, some (.file old) => c ≠ old
    | .file _, _ => true
    | .directory, _ => false
  let kept := after.files.map Prod.fst
  let gone := (before.files.map Prod.fst).filter fun path => !kept.contains path
  [("files", .record (({ after with entries := changed } : FileTree).files.map fun (path, c) =>
      (mask path, contentReport path c))),
   ("gone", .texts ((gone.map mask).mergeSort (· ≤ ·)))]

-- A workspace with the application at hand and the log books by variable.
structure WorkState where
  work : Workspace
  current : AppInstance
  books : Table String Nat

abbrev WorkStepM := ExceptT Fault (StateM WorkState)

def inWorkspace {α : Type} (x : WorkM α) : WorkStepM α := do
  let s ← get
  let (r, work) := x.run s.work
  set { s with work := work }
  r

def modifyWork (f : Workspace → Workspace) : WorkStepM Unit :=
  modify fun s => { s with work := f s.work }

def shown : Report :=
  .datum (maskDatum d)

def readSetting {α : Type} (enumeration : String) (name : α → String) : Setting α → Report
  | .known x => .text (enumeration ++ "." ++ name x)
  | .given d => shown d

def readNetworkReport (c : NetworkConfig) : Report :=
  .record [("nodes", .list (c.nodes.map fun n => .record [("name", shown n.name),
      ("hardware", readSetting "QuantumHardware" HardwareKind.name n.hardware),
      ("gate_fidelity", shown n.gateFidelity),
      ("qubits", .list (n.qubits.map fun q =>
        .list [shown q.id, shown q.relaxation, shown q.dephasing]))])),
    ("links", .list (c.links.map fun l =>
      .list [shown l.name, shown l.first, shown l.second,
        readSetting "NoiseType" NoiseKind.name l.noise, shown l.fidelity]))]

def instanceReport (a : AppInstance) : Report :=
  .record [("programs", .list (a.programs.map fun p =>
      .list [.text p.party, .text "main", .list [], .list []])),
    ("metadata", .null),
    ("inputs", .record (a.inputs.map fun (party, i) => (party, shown i.values))),
    ("network", .null),
    ("alloc", shown a.nodes),
    ("logging", .null)]

def bookEntryReport (e : BookEntry) : Report :=
  .record (e.map fun (k, v) => (k, match v with
    | .datum d => shown d
    | .request t => .text ("RequestType." ++ t.name)))

def registryReport (r : Registry) : Report :=
  .record (r.names.map fun (node, apps) =>
    (node, .record (apps.map fun (id, app) => (toString id, .text app))))

def optionalText (name : String) : Option String :=
  (d.field name).text?

def folderStep : WorkStepM Report := do
  let dir := textField d "dir"
  let file := textField d "file"
  let path := textField d "path"
  match textField d "do" with
  | "app_config" => return shown (← inWorkspace (Folder.inputs dir (d.field "name").words))
  | "roles_path" => return .text (Folder.rolesPath dir)
  | "roles" => return shown (← inWorkspace (Folder.roles file))
  | "app_files" =>
    let files ← inWorkspace (Folder.programFiles dir)
    return .record (files.map fun (app, name) => (app, .text name))
  | "log_dir" => return .text (mask (← inWorkspace (Folder.logDirectory dir)))
  | "timed_log_dir" =>
    let made ← inWorkspace (Folder.timedLogDirectory dir)
    let isDirectory := match (← get).work.files.find? made with
      | some .directory => true
      | _ => false
    return .list [.text (mask made), .bool isDirectory]
  | "post_path" => return .text (Folder.processingPath dir)
  | "load_post" =>
    match ← inWorkspace (Folder.processing file) with
    | none => return .null
    | some f => return shown (← f.apply (d.field "args").items)
  | "results_path" => return .text (Folder.resultsPath dir)
  | "new_folder" =>
    let template := (optionalText d "template").getD "teleport"
    inWorkspace (Folder.new path template (flagField d "quiet"))
    return .null
  | "init_folder" =>
    inWorkspace (Folder.complete path (flagField d "quiet"))
    return .null
  | _ => return .texts (Folder.templates.mergeSort (· ≤ ·))

def networkReport? (c : Option NetworkConfig) : Report :=
  (c.map readNetworkReport).getD .null

def instanceStep : WorkStepM Report := do
  let dir? := optionalText d "dir"
  let file? := optionalText d "file"
  let file := textField d "file"
  match textField d "do" with
  | "load_yaml" => return shown (← inWorkspace (readYamlFile file))
  | "instance" =>
    let a ← inWorkspace (AppInstance.load dir?)
    modify fun s => { s with current := a }
    return instanceReport a
  | "default_instance" =>
    let a := AppInstance.plain ((d.field "parties").items.map Datum.textD)
    modify fun s => { s with current := a }
    return instanceReport a
  | "call" =>
    let party := textField d "party"
    let result ← (← get).current.call party
    return .list [.text party, .text party, .null, .record [], shown result]
  | "network" => return networkReport? (← inWorkspace (AppInstance.network dir? file?))
  | "network_file" =>
    let cfg ← inWorkspace (readYaml file)
    return readNetworkReport (← NetworkConfig.ofDatum cfg)
  | "post" =>
    inWorkspace (AppInstance.processing dir? file?)
    return .null
  | "save_results" =>
    inWorkspace (writeYaml file (.ofDatum (d.field "data")))
    return .null
  | "debug_run" => throw (.app .runsNotInDebug)
  | "debug_state" => return .null
  | "manager" =>
    if ["start_backend", "get_network", "set_network", "run_app"].contains (textField d "m") then
      throw (.unexplained .unimplemented)
    throw .noAttribute
  | "sim_state" =>
    callSimulated (textField d "fn") (intField d "n" 0).toNat (← inWorkspace simulator)
    return .null
  | _ =>
    for party in (d.field "drop_inputs").items do
      modify fun s =>
        { s with current.inputs := Table.erase party.textD s.current.inputs }
    let a := (← get).current
    let (a, ready) := a.prepare (flagOr d "use_app_config") (a.programs.map (·.party))
    modify fun s => { s with current := a }
    ready
    inWorkspace (a.finish (optionalText d "results_file"))
    return .null

-- A session that sends nothing: it enters the registry, and may be closed again.
def connectionStep : WorkStepM Report := do
  let app := textField d "app"
  let node := (optionalText d "node").getD app
  let (id, registry) ← (← get).work.registry.enter app (d.field "app_id").int?
  modifyWork fun w => { w with registry := registry.name node id app }
  if flagField d "close" then
    modifyWork fun w => { w with registry := w.registry.leave app id }
    if let some dir := optionalText d "log_dir" then inWorkspace (Logs.saveSession dir app)
  return registryReport (← get).work.registry

def openAppBook : WorkStepM Report := do
  match d.field "dir" with
  | .text dir =>
    let name := (d.field "app").words.toLower ++ "_app_log.yaml"
    let n ← inWorkspace (openBook .app (Path.join dir name))
    if flagField d "track" then throw (.session .noDirectory)
    modify fun s => { s with books := Table.put (textField d "as") n s.books }
    return .null
  | _ => throw .mistyped

def logStep : WorkStepM Report := do
  let dir := textField d "dir"
  let file := textField d "file"
  match textField d "do" with
  | "connection" => connectionStep d
  | "process_log" =>
    inWorkspace (Logs.process dir)
    return .null
  | "app_logs" =>
    inWorkspace (Logs.nameForApps dir)
    return .null
  | "last_log" =>
    inWorkspace (Logs.copyToLast dir)
    return .null
  | "app_logger" => openAppBook d
  | "network_logger" =>
    let n ← inWorkspace (openBook .network file)
    modify fun s => { s with books := Table.put (textField d "as") n s.books }
    return .null
  | "log" =>
    match Table.get? (textField d "on") (← get).books with
    | none => throw .noKey
    | some n =>
      inWorkspace (addEntry n (d.field "args").items (d.field "kw"))
      let b ← inWorkspace (bookAt n)
      return .list (b.entries.map bookEntryReport)
  | "pickle" =>
    let programs ← (d.field "texts").items.mapM fun t =>
      (Assembly.ofText .full .vanilla t.textD : WorkStepM Subroutine)
    inWorkspace (Logs.storePrograms file programs)
    return .null
  | "unpickle" =>
    let programs ← inWorkspace (Logs.storedPrograms file)
    return .list (programs.map fun p => .record (shortSubroutine p))
  | _ =>
    inWorkspace saveBooks
    return .null

def settingStep : WorkStepM Report := do
  let current : WorkStepM Report := do
    return .text ("Simulator." ++ (← inWorkspace (do (← simulator))).title)
  match textField d "do" with
  | "set_simulator" =>
    inWorkspace (setSimulator (textField d "value"))
    current
  | "simulator" =>
    if let some v := d.field? "value" then
      modifyWork fun w => { w with simulatorWord := v.text? }
    current
  | "external" =>
    if let some (.bool b) := d.field? "hardware" then
      modifyWork fun w => { w with usesHardware := b }
    let backend ← inWorkspace backend
    return .record (Backend.names.map fun name =>
      (name, ((backend.offers.lookup name).map Report.text).getD .null))
  | "log_level" =>
    if let some v := d.field? "set" then
      let level ← LogLevel.ofDatum v
      modifyWork fun w => { w with logLevel := level }
    let own := (← get).work.logLevel
    return .list [.int (LogLevel.effective own), .int own]
  | _ => return .text (← loggerName (d.field "name"))

def folderSteps : List String :=
  ["app_config", "roles_path", "roles", "app_files", "log_dir", "timed_log_dir", "post_path",
   "load_post", "results_path", "new_folder", "init_folder", "examples"]

def logSteps : List String :=
  ["connection", "process_log", "app_logs", "last_log", "app_logger", "network_logger", "log",
   "save_logs", "pickle", "unpickle"]

def settingSteps : List String :=
  ["set_simulator", "simulator", "external", "log_level", "logger_name"]

def workStep : WorkStepM Report :=
  let name := textField d "do"
  if folderSteps.contains name then folderStep d
  else if logSteps.contains name then logStep d
  else if settingSteps.contains name then settingStep d
  else instanceStep d

def workSteps : WorkState → List Datum → List Report
  | _, [] => []
  | s, d :: rest =>
    let before := s.work.files
    let s := { s with work.printed := "" }
    let (result, s) := (workStep d).run s
    let fields := ("out", .text (mask s.work.printed)) :: changeFields before s.work.files
    .outcome result fields :: workSteps s rest

def runWorkspace : Report :=
  let work := start (filesOf d) (some Simulator.debug.word) sampleTime sampleStamp
  .record [("steps", .list (workSteps ⟨work, .plain [], []⟩ (d.field "steps").items))]

def runCommandLine : Report :=
  let files := filesOf d
  let simulator := (optionalText d "simulator").getD Simulator.debug.word
  let work := start files (some simulator) sampleTime sampleStamp
  let (result, work) := (CommandLine.program.run ((d.field "args").items.map Datum.textD)).run work
  let fields := ("out", .text (mask work.printed)) :: changeFields files work.files
  match result with
  | .ok code => .record (("exit", .int code) :: fields)
  | .error f => .outcome (.error f) (("exit", .int 1) :: fields)

end QuantumNode.Scenario
