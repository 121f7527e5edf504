import QuantumNode.App.Template
import QuantumNode.App.Workspace
import QuantumNode.Network.Config

/-
  What is in the directory of an application, how directories are made for new ones, and instances
  of applications: programs for the parties, with the inputs of each and the node it runs on.
-/

namespace QuantumNode.Folder
open Template Workspace

def appOf? (name : String) : Option String :=
  if name.startsWith "app_" && name.endsWith ".py" then
    some (String.ofList ((name.toList.drop 4).dropLast.dropLast.dropLast))
  else none

variable (dir : String) (path : String)

-- The program files of a directory by application; there has to be one.
def programFiles : WorkM (List (String × String)) := do
  let names ← inspect (·.list dir)
  let files := names.filterMap fun name => (appOf? name).map fun app => (app, name)
  if files.isEmpty then throw (.app (.noPrograms dir))
  return files

-- The inputs of an application; without any they are an empty table.
def inputs (app : String) : WorkM Datum := do
  let path := Path.join dir (app ++ ".yaml")
  if !(← has path) then return .table []
  match ← readYaml path with
  | .null => return .table []
  | d => return d

def rolesPath : String :=
  Path.join dir "roles.yaml"

def roles : WorkM Datum := do
  if ← has path then readYaml path else return .null

def madeDirectory : WorkM String := do
  if !(← has path) then change (·.makeDirectory path)
  return path

def logDirectory : WorkM String :=
  madeDirectory (Path.join dir "log")

def timedLogDirectory (logDir : String) : WorkM String := do
  madeDirectory (Path.join logDir (← get).stamp)

def resultsPath (logDir : String) : String :=
  Path.join logDir "results.yaml"

def processingPath : String :=
  Path.join dir "post_function.py"

def processing : WorkM (Option MainFunction) := do
  if !(← has path) then return none
  match (← runProgram path).main? with
  | some f => return some f
  | none => throw .noKey

def ignored : List String :=
  ["__init__.py", "__pycache__", "log", "cysignals_crash_logs"]

def templates : List String :=
  names.filter fun name => !ignored.contains name

def copyEntry (source : FilePlace) (path name : String) : WorkM Unit := do
  let from_ := source ++ [name]
  let target := Path.join path name
  match tree.entry? from_ with
  | some (.file c) => change (·.write target c)
  | some .directory =>
    change fun t => do
      let t ← t.makeDirectory target
      return t.graft (← t.place target) (tree.below from_)
  | none => return ()

def new (template : String) (quiet : Bool) : WorkM Unit := do
  if ← has path then throw (.app .folderExists)
  change (·.makeDirectory path)
  let source ← tree.place (if template.isEmpty then "." else template)
  tree.enter source
  for name in tree.names source do
    if !ignored.contains name then copyEntry source path name
  if !quiet then
    say s!"Creating application template ({template} example) in `{path}`"

def pairs {α : Type} : List α → List (α × α)
  | [] => []
  | x :: rest => rest.map (fun y => (x, y)) ++ pairs rest

def plainNetwork (apps : List String) : Datum :=
  let node (app : String) : Datum := .record [("name", .text app), ("gate_fidelity", .float 1.0),
    ("qubits", .list [.record [("id", .int 0), ("t1", .int 0), ("t2", .int 0)]])]
  let link (ends : (String × String) × Nat) : Datum := .record [
    ("name", .text ("ch" ++ toString ends.2)),
    ("node_name1", .text ends.1.1),
    ("node_name2", .text ends.1.2),
    ("noise_type", .text "Depolarise"),
    ("fidelity", .float 1.0)]
  .record [("nodes", .list (apps.map node)), ("links", .list ((pairs apps).zipIdx.map link))]

def plainRoles (apps : List String) : Datum :=
  .record (apps.map fun app => (app, .text app))

def noDefault : Yaml.Foreign :=
  ⟨"python/name:inspect._empty", none⟩

-- The inputs of a main function with their defaults; one argument is not an input.
def defaultInputs (f : MainFunction) : Yaml.Node :=
  let inputs := f.parameters.filter (·.name ≠ "app_config")
  .table (Yaml.Node.sorted (inputs.map fun p => (p.name, match p.default? with
    | some d => .ofDatum d
    | none => .object noDefault)))

def readme : String :=
  "# Application name\nSome description of the application.\n\n## Inputs\nDescription of inputs.\n" ++
  "\n## Outputs\nDescription of outputs.\n"

def resultsConfig : String :=
  "\n".intercalate ["[", "    [", "        \x7b", "            \"output_type\": \"text\",",
    "            \"title\": \"Results\",",
    "            \"parameters\": \x7b",
    "                \"content\": \"Information about the results.\"",
    "            \x7d",
    "        \x7d",
    "    ]",
    "]"]

-- Write a file unless it exists, and say so; answers whether it was written.
def createFile (quiet : Bool) (text : WorkM String) : WorkM Bool := do
  if ← has path then return false
  writeText path (← text)
  if !quiet then say s!"Created file `{path}`"
  return true

-- The inputs of a program; to read it needs no simulator.
def inputsText : WorkM String := do
  setSimulator Simulator.debug.word
  match (← runProgram path).main? with
  | some f => return Yaml.write (defaultInputs f)
  | none => throw (.app (.noMain path))

def complete (quiet : Bool) : WorkM Unit := do
  let programs ← programFiles path
  let apps := programs.map Prod.fst
  let network ← createFile (Path.join path "network.yaml") quiet
    (return Yaml.writeDatum (plainNetwork apps))
  let roles ← createFile (rolesPath path) quiet (return Yaml.writeDatum (plainRoles apps))
  let inputs ← programs.mapM fun (app, file) =>
    createFile (Path.join path (app ++ ".yaml")) quiet (inputsText (Path.join path file))
  let readme ← createFile (Path.join path "README.md") false (return readme)
  let results ← createFile (Path.join path "results_config.json") false (return resultsConfig)
  if !quiet then
    if network || roles || inputs.any id || readme || results then
      let shown := if path = "." then "current path" else "`\x7bpath\x7d`"
      say s!"Initialized {shown} with missing config files"
    else say "No files needed to be added"

end QuantumNode.Folder

namespace QuantumNode

structure PartyProgram where
  party : String
  main : MainFunction

-- The inputs of a program, to which the configuration of a run may have been added.
structure PartyInputs where
  values : Datum
  isConfigured : Bool

-- Programs with inputs, and the nodes of the parties.
structure AppInstance where
  programs : List PartyProgram
  inputs : Table String PartyInputs
  nodes : Datum

namespace AppInstance

def ownNodes (parties : List String) : Datum :=
  .table (parties.foldl (fun t p => Yaml.putEntry (.text p) (.text p) t) [])

def plain (parties : List String) : AppInstance where
  programs := parties.map fun p => ⟨p, ⟨[⟨"app_config", some .null⟩], some (.datum .null)⟩⟩
  inputs := parties.foldl (fun t p => Table.put p ⟨.table [], false⟩ t) []
  nodes := ownNodes parties

def programOf (party file : String) : WorkM PartyProgram := do
  let p ← Workspace.importModule (String.ofList (file.toList.dropLast.dropLast.dropLast))
  match p.main? with
  | some f => return ⟨party, f⟩
  | none => throw .noAttribute

-- Load the application in a directory, which is searched for modules from then on.
def load (dir? : Option String) : WorkM AppInstance := do
  let dir := dir?.getD (← get).files.top
  modify fun w => { w with searched := w.searched ++ [dir] }
  let files ← Folder.programFiles dir
  let loaded ← files.mapM fun (party, file) => do
    let program ← programOf party file
    let values ← Folder.inputs dir party
    return (program, (party, (⟨values, false⟩ : PartyInputs)))
  let nodes ← match ← Folder.roles (Folder.rolesPath dir) with
    | .null => pure (ownNodes (files.map Prod.fst))
    | d => pure d
  return ⟨loaded.map Prod.fst, loaded.map Prod.snd, nodes⟩

def network (dir? file? : Option String) : WorkM (Option NetworkConfig) := do
  let file := file?.getD "network.yaml"
  let path := match dir? with
    | some dir => Path.join dir file
    | none => file
  if !(← Workspace.has path) then return none
  return some (← NetworkConfig.ofDatum (← Workspace.readYamlFile path))

-- The function that processes results; no file is found as a module by its path.
def processing (dir? file? : Option String) : WorkM Unit := do
  let file := file?.getD "post_function.yaml"
  let path := match dir? with
    | some dir => Path.join dir file
    | none => file
  if ← Workspace.has path then
    throw (if path.startsWith "." then .mistyped else .unexplained .missingModule)

variable (a : AppInstance)

def inputsOf (party : String) : Checked PartyInputs :=
  match Table.get? party a.inputs with
  | some i => .ok i
  | none => .error .noKey

def arguments : Datum → Checked (List (String × Datum))
  | .table entries => entries.mapM fun
      | (.text k, v) => .ok (k, v)
      | _ => .error .mistyped
  | _ => .error .mistyped

-- The result of a party's program for its inputs; its configuration is given once.
def call (party : String) : Checked Datum := do
  match a.programs.find? (·.party = party) with
  | none => throw .noKey
  | some p =>
    let i ← a.inputsOf party
    let given ← arguments i.values
    demand (!i.isConfigured && !given.any (·.1 = "app_config")) .mistyped
    p.main.call (("app_config", .null) :: given)

def nodeOf (party : String) : Checked Datum :=
  match a.nodes with
  | .table _ =>
    match a.nodes.field? party with
    | some d => .ok d
    | none => .error .noKey
  | _ => .error .mistyped

-- Get a party ready for a run, with or without adding the configuration to its inputs.
def prepareParty (configured : Bool) (party : String) : Checked AppInstance := do
  let i ← a.inputsOf party
  if !configured then return a
  let _ ← a.nodeOf party
  match i.values with
  | .table _ => return { a with inputs := Table.put party { i with isConfigured := true } a.inputs }
  | _ => throw .mistyped

def prepare (a : AppInstance) (configured : Bool) : List String → AppInstance × Checked Unit
  | [] => (a, .ok ())
  | party :: rest =>
    match a.prepareParty configured party with
    | .ok a => a.prepare configured rest
    | .error f => (a, .error f)

-- Collect the results of a run. The results of programs cannot be waited for, so only an
-- application without programs comes to its end.
def finish (resultsFile : Option String) : WorkM Unit := do
  if !a.programs.isEmpty then throw .noAttribute
  if let some file := resultsFile then Workspace.writeYaml file (.table [])
  Workspace.saveBooks

end AppInstance

end QuantumNode
