import QuantumNode.App.Folder
import QuantumNode.CommandLine.Arguments

/-
  Commands and groups of commands, how a command line is carried out, and the commands of the
  program: to make and to complete directories of applications, and to run or simulate applications.
-/

namespace QuantumNode
open HelpPage

-- A command that does something with its options and arguments, or refuses them, or a group of
-- commands.
inductive CommandTree
  | action (synopsis : Synopsis) (arguments : List String) (act : Choices → WorkM (Option UsageFault))
  | group (synopsis : Synopsis) (members : List CommandTree)

-- How a command line ended: it was carried out, asked for help, or was refused.
inductive Ending
  | done
  | help (page : String)
  | refused (page : String)

namespace Ending

def page : Ending → String
  | done => ""
  | help page | refused page => page

def code : Ending → Nat
  | done | help _ => 0
  | refused _ => 2

end Ending

namespace CommandTree

def synopsis : CommandTree → Synopsis
  | action s _ _ => s
  | group s _ => s

def checkArguments : List String → List String → Except UsageFault Unit
  | [], [] => .ok ()
  | [], extra => .error (.extraArguments extra)
  | name :: _, [] => .error (.missingArgument name)
  | _ :: names, _ :: arguments => checkArguments names arguments

variable (s : Synopsis)

def readChoices (mixed : Bool) (files : FileTree)
    (args : List String) : Except UsageFault (Option Choices) := do
  let (uses, arguments) ← Arguments.read s.allOptions mixed args
  if (Arguments.used uses).contains .help then return none
  Arguments.check files.has uses
  return some ⟨uses, arguments⟩

def carryOutAction (names : List String) (act : Choices → WorkM (Option UsageFault))
    (path : String) (args : List String) : WorkM Ending := do
  let refuse (f : UsageFault) : WorkM Ending := return .refused (refusal s path f)
  match readChoices s true (← get).files args with
  | .error f => refuse f
  | .ok none => return .help (text s path [])
  | .ok (some choices) =>
    match checkArguments names choices.arguments with
    | .error f => refuse f
    | .ok () =>
      match ← act choices with
      | some f => refuse f
      | none => return .done

def isMarked (name : String) : Bool :=
  match name.toList with
  | [] => false
  | c :: _ => !(c.isAlphanum || 0x7F < c.toNat)

-- The words of a group's command line from the name of a command on, or how the command line ends.
def groupArguments (members : List Synopsis) (path : String)
    (args : List String) : WorkM (Except Ending (List String)) := do
  if args.isEmpty then return .error (.help (text s path members))
  match readChoices s false (← get).files args with
  | .error f => return .error (.refused (refusal s path f))
  | .ok none => return .error (.help (text s path members))
  | .ok (some choices) => return .ok choices.arguments

-- A name that no command has. A marked one is taken for an option first, so what follows it is read
-- on its own.
def unknown (members : List Synopsis) (path name : String) (args : List String) : WorkM Ending := do
  let refused := Ending.refused (refusal s path (.unknownCommand name))
  if !isMarked name then return refused
  match ← groupArguments s members path args with
  | .error e => return e
  | .ok _ => return refused

mutual

-- Carry out a command line; the path is how the command was reached.
def carryOut : CommandTree → String → List String → WorkM Ending
  | action s names act, path, args => carryOutAction s names act path args
  | group s members, path, args => do
    let synopses := members.map synopsis
    match ← groupArguments s synopses path args with
    | .error e => return e
    | .ok [] => return .refused (refusal s path .missingCommand)
    | .ok (name :: rest) =>
      carryOutMember members path name rest (unknown s synopses path name rest)

def carryOutMember : List CommandTree → String → String → List String → WorkM Ending → WorkM Ending
  | [], _, _, _, otherwise => otherwise
  | c :: rest, path, name, args, otherwise =>
    if c.synopsis.name = name then c.carryOut (path ++ " " ++ name) args
    else carryOutMember rest path name args otherwise

end

def run (c : CommandTree) (args : List String) : WorkM Nat := do
  let e ← c.carryOut c.synopsis.name args
  modify fun w => { w with printed := w.printed ++ e.page }
  return e.code

end CommandTree

end QuantumNode

namespace QuantumNode.CommandLine
variable (name : String)

def valued (shape : OptionShape) (about : String) : OptionSpec where
  letter := none
  name := name
  shape := shape
  isNegatable := false
  about := about

def lettered (letter : Char) (name about : String) : OptionSpec where
  letter := some letter
  name := name
  shape := .flag
  isNegatable := false
  about := about

def negatable (about : String) : OptionSpec where
  letter := none
  name := name
  shape := .flag
  isNegatable := true
  about := about

def quiet : OptionSpec :=
  lettered 'q' "quiet" "No output printed to stdout"

def appDir : OptionSpec :=
  valued "app-dir" .text "Path to app directory. Defaults to CWD."

def trackLines : OptionSpec :=
  negatable "track-lines" ""

def logDir : OptionSpec :=
  valued "log-dir" .text "Explicitly choose the log directory, default is `app-folder/log`."

def logLevel : OptionSpec :=
  valued "log-level" (.choice ["DEBUG", "INFO", "WARNING", "ERROR", "CRITICAL"])
    ("What log-level to use (DEBUG, INFO, WARNING, ERROR, CRITICAL).Note, this affects logging to " ++
     "stderr, not logging instructions to file.")

def logToFiles : OptionSpec :=
  valued "log-to-files" .boolean "Set to false to completely disable logging to files."

def versionText : String := "0.1.dev956"

def version : CommandTree :=
  .action {
    name := "version"
    pieces := ["[OPTIONS]"]
    about := ["Prints the version of netqasm."]
    options := [] } [] fun _ => do
  Workspace.say versionText
  return none

def offered : WorkM Unit := do
  let backend ← Workspace.backend
  if (backend.offers.lookup name).isNone then throw .noAttribute

def simulate : CommandTree :=
  .action {
    name := "simulate"
    pieces := ["[OPTIONS]"]
    about := ["Simulate an application on a simulated QNodeOS."]
    options := [
      appDir,
      trackLines,
      logDir,
      valued "post-function-file" .text "Explicitly choose the file defining the post function.",
      logLevel,
      logToFiles,
      valued "network-config-file" .text
        "Explicitly choose the network config file, default is `app-folder/network.yaml`.",
      valued "simulator" (.choice (Simulator.all.map Simulator.word))
        ("Choose with simulator to use, default uses what environment variable " ++
         "'NETQASM_SIMULATOR' is set to, otherwise 'netsquid'"),
      valued "formalism" (.choice formalisms)
        "Choose which quantum state formalism is used by the simulator. Default is 'ket'.",
      valued "num" .integer "Number of times to run this application.",
      negatable "sim-context"
        ("Whether to pass an AppConfig object containing simulation context to a program's main " ++
         "function."),
      valued "hardware" (.choice ["generic", "nv"])
        "What quantum hardware to use in nodes if no explicit network config is specified",
      negatable "timer" "Measure and display how much time the simulation took"] } [] fun c => do
  let level ← LogLevel.ofDatum (.text ((c.text? "log-level").getD "WARNING"))
  modify fun w => { w with logLevel := level }
  let standing := (← get).simulatorWord.getD Simulator.netsquid.word
  Workspace.setSimulator ((c.text? "simulator").getD standing)
  offered "simulate_application"
  return none

def run : CommandTree :=
  .action {
    name := "run"
    pieces := ["[OPTIONS]"]
    about := ["Execute an application on QNodeOS."]
    options := [
      appDir,
      valued "lib-dirs" .text "Path to additional library directory.",
      trackLines,
      valued "app-config-dir" .text
        "Explicitly choose the app config directory, default is `app-folder`.",
      logDir,
      valued "results-file" .text
        "Explicitly choose the file where the results of a post function should be stored.",
      logLevel,
      logToFiles] } [] fun _ => do
  modify fun w => { w with usesHardware := true }
  offered "run_application"
  return none

def new : CommandTree :=
  .action {
    name := "new"
    pieces := ["[OPTIONS]", "PATH"]
    about := ["Creates a new application at PATH"]
    options := [
      valued "template" (.choice Folder.templates)
        "Which pre-defined app to use when creating the template (default teleport)",
      quiet] } ["PATH"] fun c => do
  let path := c.argument
  if ← Workspace.has path then return some (.destinationExists path)
  Folder.new path ((c.text? "template").getD "teleport") (c.isOn "quiet")
  return none

def init : CommandTree :=
  .action {
    name := "init"
    pieces := ["[OPTIONS]"]
    about := [
      "Initializes an existing directory with missing config files. Does not overwrite any " ++
      "existing files. Looks for any files `app_*.py` and creates a simple network config file " ++
      "(network.yaml) containing nodes corresponding to the application files.",
      "By default the current directory is used. Another directory can be specified with the " ++
      "-p/--path flag."]
    options := [
      { letter := some 'p'
        name := "path"
        shape := .existingPath
        isNegatable := false
        about := "Destination to initialize, defaults to current working directory" },
      quiet] } [] fun c => do
  Folder.complete ((c.text? "path").getD ".") (c.isOn "quiet")
  return none

def qne : CommandTree :=
  .group {
    name := "qne"
    pieces := ["[OPTIONS]", "COMMAND", "[ARGS]..."]
    about := ["Command line interface for managing calls to the QNE apirouter."]
    options := [] } []

def program : CommandTree :=
  .group {
    name := "netqasm"
    pieces := ["[OPTIONS]", "COMMAND", "[ARGS]..."]
    about := ["Command line interface for managing virtual python environments."]
    options := [lettered 'v' "verbose" "Print info and debug warnings to the console."] }
  [init, new, qne, run, simulate, version]

end QuantumNode.CommandLine
