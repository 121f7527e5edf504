import QuantumNode.Document.Yaml.Read
import QuantumNode.Files.Tree
import QuantumNode.Session.Connection

/-
  Workspaces: the files, settings and logs that the operations on applications work with. Log books
  are kept for a file and written to it later. Of a program's text it is known which modules it
  needs, which parameters its main function has, and what the function returns if that is all it
  does. The logs of a run are completed, named for applications instead of nodes, and copied to
  where the last run is found.
-/

namespace QuantumNode

-- A value in an entry: data, or a kind of request.
inductive LogValue
  | datum (d : Datum)
  | request (t : RequestType)

namespace LogValue

def requestTag : String :=
  "python/object/apply:netqasm.qlink_compat.RequestType"

def node : LogValue → Yaml.Node
  | .datum d => .ofDatum d
  | .request t => .object ⟨requestTag, some t.value⟩

end LogValue

abbrev BookEntry := List (String × LogValue)

-- Logs of what an application says, and of entanglement in the network.
inductive LogKind
  | app
  | network
  deriving DecidableEq

structure LogBook where
  file : String
  kind : LogKind
  entries : List BookEntry

namespace LogBook

-- An entry of an application: what is given by name, or else the only argument.
def appEntry (time : String) (arguments : List Datum) (named : Datum) : Checked BookEntry := do
  let log ← match named.field "log", arguments with
    | .null, [d] => pure d
    | .null, _ => throw (.app .oneLogArgument)
    | d, _ => pure d
  return [("HFL", .datum .null), ("HLN", .datum .null), ("LOG", .datum log),
    ("WCT", .datum (.text time))]

def typeValue : LogValue → LogValue
  | .request .keep => .datum (.text "epr_EntanglementType.CK")
  | .request .measure => .datum (.text "epr_EntanglementType.MD")
  | v => v

-- A kind of request by its number, or anything else.
def typeOf : Datum → Checked LogValue
  | .int v =>
    match RequestType.ofValue? v with
    | some t => .ok (.request t)
    | none => .error .malformed
  | d => .ok (.datum d)

-- An entry about entanglement; all of its parts have to be named.
def networkEntry (time : String) (named : Datum) : Checked BookEntry := do
  let part (name : String) : Checked Datum := match named.field? name with
    | some d => .ok d
    | none => .error .noKey
  let type ← match named.field? "ent_type" with
    | some d => typeOf d
    | none => throw .noKey
  return [("BAS", .datum (← part "meas_bases")),
    ("INS", .datum (.text ("epr_" ++ (← part "ent_stage").words))),
    ("LOG", .datum (← part "msg")),
    ("MSR", .datum (← part "meas_outcomes")),
    ("NOD", .datum (← part "nodes")),
    ("PTH", .datum (← part "path")),
    ("QGR", .datum (← part "qubit_groups")),
    ("QID", .datum (← part "qubit_ids")),
    ("SIT", .datum (← part "sim_time")),
    ("TYP", typeValue type),
    ("WCT", .datum (.text time))]

def add (b : LogBook) (time : String) (arguments : List Datum)
    (named : Datum) : Checked LogBook := do
  let entry ← match b.kind with
    | .app => appEntry time arguments named
    | .network => networkEntry time named
  return { b with entries := b.entries ++ [entry] }

def text (b : LogBook) : String :=
  Yaml.write (.list (b.entries.map fun e => .table (e.map fun (k, v) => (k, v.node))))

end LogBook

---- Settings

inductive Simulator
  | netsquid
  | netsquidSingleThread
  | simulaqron
  | debug
  deriving DecidableEq

namespace Simulator

def all : List Simulator :=
  [.netsquid, .netsquidSingleThread, .simulaqron, .debug]

def word : Simulator → String
  | netsquid => "netsquid"
  | netsquidSingleThread => "netsquid_single_thread"
  | simulaqron => "simulaqron"
  | debug => "debug"

def title : Simulator → String
  | netsquid => "NETSQUID"
  | netsquidSingleThread => "NETSQUID_SINGLE_THREAD"
  | simulaqron => "SIMULAQRON"
  | debug => "DEBUG"

def find (word : String) : Checked Simulator :=
  match all.find? (·.word = word) with
  | some s => .ok s
  | none => .error .malformed

def current (setting : Option String) : Checked Simulator :=
  match setting with
  | none => .ok .netsquid
  | some word => find word

end Simulator

def formalisms : List String :=
  ["stab", "ket", "dm"]

structure Backend where
  offers : List (String × String)

namespace Backend

def names : List String :=
  ["BroadcastChannel", "NetQASMConnection", "Socket", "get_qubit_state", "run_application",
   "simulate_application"]

def debug : Backend :=
  ⟨[("BroadcastChannel", "ThreadBroadcastChannel"), ("NetQASMConnection", "DebugConnection"),
    ("Socket", "ThreadSocket"), ("get_qubit_state", "get_qubit_state"),
    ("run_application", "run_application")]⟩

-- The backend for a simulator or for hardware; other backends are not installed.
def select (usesHardware : Bool) (simulator : Simulator) : Checked Backend :=
  if usesHardware then .error (.app .hardwareMissing)
  else match simulator with
    | .netsquid | .netsquidSingleThread => .error (.app (.simulatorMissing "netsquid" "squidasm"))
    | .simulaqron => .error (.app (.simulatorMissing "simulaqron" "simulaqron"))
    | .debug => .ok debug

end Backend

def simulatedFunctions : List (String × Nat) :=
  [("qubit_from", 2), ("to_dm", 1), ("get_fidelity", 2)]

-- No function on simulated states can be called without the simulator.
def callSimulated (name : String) (arguments : Nat)
    (simulator : Checked Simulator) : Checked Unit := do
  match simulatedFunctions.lookup name with
  | none => throw .noAttribute
  | some n =>
    demand (arguments = n) .mistyped
    if (← simulator) = .netsquid then throw (.unexplained .missingModule)
    throw (.app (.onlySimulated name))

namespace LogLevel

-- The level that counts where none is set.
def inherited : Int := 30

def names : List (String × Int) :=
  [("CRITICAL", 50), ("FATAL", 50), ("ERROR", 40), ("WARN", 30), ("WARNING", 30), ("INFO", 20),
   ("DEBUG", 10), ("NOTSET", 0)]

def ofDatum : Datum → Checked Int
  | .int v => .ok v
  | .bool b => .ok (if b then 1 else 0)
  | .text s =>
    match names.lookup s with
    | some v => .ok v
    | none => .error .malformed
  | _ => .error .mistyped

def effective (own : Int) : Int :=
  if own = 0 then inherited else own

end LogLevel

def loggerName : Datum → Checked String
  | .null => .ok "NetQASM"
  | .text s => .ok ("NetQASM." ++ s)
  | d => .error (.app (.badLoggerName d.typeText))

---- Expressions

-- A value that is written out, in which parameters may stand.
inductive Expr
  | datum (d : Datum)
  | name (s : String)
  | list (items : List Expr)
  | table (entries : List (Expr × Expr))

namespace Expr

mutual

def value? (names : List (String × Datum)) : Expr → Option Datum
  | .datum d => some d
  | .name s => names.lookup s
  | .list items => (values? names items).map .list
  | .table entries => (entryValues? names entries).map .table

def values? (names : List (String × Datum)) : List Expr → Option (List Datum)
  | [] => some []
  | x :: rest => do return (← value? names x) :: (← values? names rest)

def entryValues?
    (names : List (String × Datum)) : List (Expr × Expr) → Option (List (Datum × Datum))
  | [] => some []
  | (k, v) :: rest => do
    return (← value? names k, ← value? names v) :: (← entryValues? names rest)

end

def skipBlank (cs : List Char) : List Char :=
  cs.dropWhile fun c => c = ' ' || c = '\t' || c = '\n'

def cutName (cs : List Char) : List Char × List Char :=
  (cs.takeWhile Text.Words.isNameChar, cs.dropWhile Text.Words.isNameChar)

def ofWord : String → Expr
  | "None" => .datum .null
  | "True" => .datum (.bool true)
  | "False" => .datum (.bool false)
  | s => .name s

-- A number without a sign; a point or an exponent makes it a fraction.
def readNumber (negative : Bool) (cs : List Char) : Option (Expr × List Char) :=
  let whole := cs.takeWhile Char.isDigit
  let rest := cs.dropWhile Char.isDigit
  let (pointed, places, rest) := match rest with
    | '.' :: more => (true, more.takeWhile Char.isDigit, more.dropWhile Char.isDigit)
    | _ => (false, [], rest)
  let (exponent, rest) := Json.readExponent rest
  if whole.isEmpty && places.isEmpty then none
  else if !pointed && exponent.isNone then
    let n : Int := Json.digitsNumber whole
    some (.datum (.int (if negative then -n else n)), rest)
  else
    let e : Int := exponent.getD 0 - places.length
    some (.datum (.float (Json.scientific negative (Json.digitsNumber (whole ++ places)) e)), rest)

def readText (mark : Char) : List Char → Option (List Char × List Char)
  | [] => none
  | '\\' :: c :: rest =>
    let char := match c with
      | 'n' => '\n'
      | 't' => '\t'
      | c => c
    (readText mark rest).map fun (cs, rest) => (char :: cs, rest)
  | c :: rest =>
    if c = mark then some ([], rest)
    else if c = '\n' then none
    else (readText mark rest).map fun (cs, rest) => (c :: cs, rest)

mutual

def read : Nat → List Char → Option (Expr × List Char)
  | 0, _ => none
  | n + 1, cs =>
    match skipBlank cs with
    | '[' :: rest => readItems n [] rest
    | '\x7b' :: rest => readEntries n [] rest
    | '-' :: rest => readNumber true rest
    | '+' :: rest => readNumber false rest
    | c :: rest =>
      if c = '\'' || c = '"' then
        (readText c rest).map fun (s, rest) => (.datum (.text (String.ofList s)), rest)
      else if c.isDigit || c = '.' then readNumber false (c :: rest)
      else
        let (word, rest) := cutName (c :: rest)
        if word.isEmpty then none else some (ofWord (String.ofList word), rest)
    | [] => none

def readItems : Nat → List Expr → List Char → Option (Expr × List Char)
  | 0, _, _ => none
  | n + 1, items, cs =>
    match skipBlank cs with
    | ']' :: rest => some (.list items.reverse, rest)
    | cs => do
      let (x, rest) ← read n cs
      match skipBlank rest with
      | ',' :: rest => readItems n (x :: items) rest
      | ']' :: rest => some (.list (x :: items).reverse, rest)
      | _ => none

def readEntries : Nat → List (Expr × Expr) → List Char → Option (Expr × List Char)
  | 0, _, _ => none
  | n + 1, entries, cs =>
    match skipBlank cs with
    | '\x7d' :: rest => some (.table entries.reverse, rest)
    | cs => do
      let (k, rest) ← read n cs
      match skipBlank rest with
      | ':' :: rest =>
        let (v, rest) ← read n rest
        match skipBlank rest with
        | ',' :: rest => readEntries n ((k, v) :: entries) rest
        | '\x7d' :: rest => some (.table ((k, v) :: entries).reverse, rest)
        | _ => none
      | _ => none

end

end Expr

---- Main functions

structure Parameter where
  name : String
  default? : Option Datum

-- A main function; its result is known if it does nothing else.
structure MainFunction where
  parameters : List Parameter
  result : Option Expr

namespace MainFunction

def valueFor (given : List (String × Datum)) (p : Parameter) : Checked (String × Datum) :=
  match given.lookup p.name, p.default? with
  | some v, _ => .ok (p.name, v)
  | none, some v => .ok (p.name, v)
  | none, none => .error .mistyped

-- The result for arguments by name; all have to be parameters, and none may be missing.
def call (f : MainFunction) (given : List (String × Datum)) : Checked Datum := do
  demand (given.all fun (k, _) => f.parameters.any (·.name = k)) .mistyped
  let names ← f.parameters.mapM (valueFor given)
  return (f.result.bind (Expr.value? names)).getD .null

def apply (f : MainFunction) (arguments : List Datum) : Checked Datum := do
  demand (arguments.length ≤ f.parameters.length) .mistyped
  f.call ((f.parameters.map Parameter.name).zip arguments)

variable (cs : List Char)

def skipType : List Char :=
  match Expr.skipBlank cs with
  | ':' :: rest => rest.dropWhile fun c => c ≠ '=' && c ≠ ',' && c ≠ ')'
  | cs => cs

def readDefault : List Char → Option (Option Datum × List Char)
  | '=' :: rest => do
    let (x, rest) ← Expr.read (rest.length + 1) rest
    return (some (← x.value? []), rest)
  | rest => some (none, rest)

def readParameters : Nat → List Char → Option (List Parameter × List Char)
  | 0, _ => none
  | n + 1, cs =>
    match Expr.skipBlank cs with
    | ')' :: rest => some ([], rest)
    | cs => do
      let (word, rest) := Expr.cutName cs
      if word.isEmpty then none
      let (default?, rest) ← readDefault (Expr.skipBlank (skipType rest))
      let p : Parameter := ⟨String.ofList word, default?⟩
      match Expr.skipBlank rest with
      | ',' :: rest => (readParameters n rest).map fun (ps, rest) => (p :: ps, rest)
      | ')' :: rest => some ([p], rest)
      | _ => none

-- Parameters without a default come first.
def inOrder : List Parameter → Bool
  | [] => true
  | p :: rest =>
    if p.default?.isSome then rest.all (·.default?.isSome) else inOrder rest

def readResult : Option Expr :=
  match Text.cut? "return ".toList (Expr.skipBlank cs) with
  | some ([], rest) =>
    match Expr.read (rest.length + 1) rest with
    | some (x, rest) => if (Expr.skipBlank rest).isEmpty then some x else none
    | none => none
  | _ => none

def read : Option MainFunction := do
  let (parameters, rest) ← readParameters (cs.length + 1) cs
  if !inOrder parameters then none
  match rest.dropWhile (· ≠ ':') with
  | ':' :: body => return ⟨parameters, readResult body⟩
  | _ => none

end MainFunction

-- A program: modules that have to be found beside it, and its main function.
structure Program where
  needs : List String
  main? : Option MainFunction

namespace Program

def installed : List String :=
  ["collections", "dataclasses", "json", "math", "netqasm", "numpy", "random", "typing"]

def importOf? (line : List Char) : Option String :=
  let module (rest : List Char) : Option String :=
    let name := String.ofList (rest.takeWhile Text.Words.isNameChar)
    if name.isEmpty || installed.contains name then none else some name
  match Text.cut? "from ".toList line, Text.cut? "import ".toList line with
  | some ([], rest), _ => module rest
  | _, some ([], rest) => module rest
  | _, _ => none

def mainStart : List Char := "def main(".toList

-- What follows the start of the main function, which begins a line.
def findMain? : List Char → Option (List Char)
  | [] => none
  | c :: rest =>
    if c = '\n' && mainStart.isPrefixOf rest then some (rest.drop mainStart.length)
    else findMain? rest

def ofText (s : String) : Checked Program :=
  let needs := (Text.splitAt '\n' s.toList).filterMap importOf?
  match findMain? ('\n' :: s.toList) with
  | none => .ok ⟨needs, none⟩
  | some cs =>
    match MainFunction.read cs with
    | some f => .ok ⟨needs, some f⟩
    | none => .error (.unexplained .badProgram)

end Program

---- Workspaces

/-
  The files with all that was printed; the settings; the directories that modules are looked for in,
  and the modules that were found; the applications at nodes; the log books, those first that were
  opened last and are not yet saved; and the time.
-/
structure Workspace where
  files : FileTree
  printed : String
  simulatorWord : Option String
  usesHardware : Bool
  logLevel : Int
  searched : List String
  modules : Table String Program
  registry : Registry
  books : Array LogBook
  unsaved : List Nat
  time : String
  stamp : String

-- Operations in a workspace.  A refused one leaves what it had reached.
abbrev WorkM := ExceptT Fault (StateM Workspace)

namespace Workspace

def start (files : FileTree) (simulatorWord : Option String) (time stamp : String) : Workspace where
  files := files
  printed := ""
  simulatorWord := simulatorWord
  usesHardware := false
  logLevel := 0
  searched := []
  modules := []
  registry := .empty
  books := #[]
  unsaved := []
  time := time
  stamp := stamp

def say (line : String) : WorkM Unit :=
  modify fun w => { w with printed := w.printed ++ line ++ "\n" }

def ofFiles {α : Type} (f : FileTree → α) : WorkM α := do
  return f (← get).files

def inspect {α : Type} (f : FileTree → Checked α) : WorkM α := do
  f (← get).files

def change (f : FileTree → Checked FileTree) : WorkM Unit := do
  let files ← f (← get).files
  modify fun w => { w with files := files }

variable (path : String)

def has : WorkM Bool :=
  ofFiles (·.has path)

def writeText (text : String) : WorkM Unit :=
  change (·.write path (.text text))

def readYaml : WorkM Datum := do
  Yaml.read (← inspect (·.read path))

def writeYaml (n : Yaml.Node) : WorkM Unit :=
  writeText path (Yaml.write n)

def readYamlFile : WorkM Datum := do
  if !(← has path) then throw (.app (.noFile path))
  readYaml path

def simulator : WorkM (Checked Simulator) := do
  return Simulator.current (← get).simulatorWord

def setSimulator (word : String) : WorkM Unit := do
  let s ← Simulator.find word
  modify fun w => { w with simulatorWord := some s.word }

def backend : WorkM Backend := do
  let s ← Simulator.current (← get).simulatorWord
  Backend.select (← get).usesHardware s

def isFound (name : String) : WorkM Bool := do
  let w ← get
  return w.searched.any fun d =>
    w.files.has (Path.join d name) || w.files.has (Path.join d (name ++ ".py"))

-- Read a program; the modules that it needs have to be found.
def runProgram : WorkM Program := do
  let p ← Program.ofText (← inspect (·.read path))
  for name in p.needs do
    if !(← isFound name) then throw (.unexplained .missingModule)
  return p

-- A module by its name, which is read only once.
def importModule (name : String) : WorkM Program := do
  let w ← get
  match Table.get? name w.modules with
  | some p => return p
  | none =>
    let file (d : String) : String := Path.join d (name ++ ".py")
    match w.searched.find? fun d => w.files.has (file d) with
    | none => throw (.unexplained .missingModule)
    | some d =>
      if name.contains '.' then throw (.unexplained .missingModule)
      let p ← runProgram (file d)
      modify fun w => { w with modules := Table.put name p w.modules }
      return p

def openBook (kind : LogKind) (file : String) : WorkM Nat := do
  let n := (← get).books.size
  modify fun w => { w with books := w.books.push ⟨file, kind, []⟩, unsaved := n :: w.unsaved }
  return n

def bookAt (n : Nat) : WorkM LogBook := do
  return (← get).books.getD n ⟨"", .app, []⟩

def addEntry (n : Nat) (arguments : List Datum) (named : Datum) : WorkM Unit := do
  let b ← (← bookAt n).add (← get).time arguments named
  modify fun w => { w with books := w.books.setIfInBounds n b }

-- Write log books to their files; one that cannot be written is given up.
def saveEach : List Nat → WorkM Unit
  | [] => return ()
  | n :: rest => do
    modify fun w => { w with unsaved := rest }
    let b ← bookAt n
    writeText b.file b.text
    saveEach rest

-- Write all log books, the last one first.
def saveBooks : WorkM Unit := do
  saveEach (← get).unsaved

end Workspace

end QuantumNode

namespace QuantumNode.Logs
open Workspace

def ending : String := "_instrs.yaml"

def nodeOf? (name : String) : Option String :=
  if name.endsWith ending then
    some (String.ofList (name.toList.take (name.length - ending.length)))
  else none

variable (dir : String)

def instructionLogs : WorkM (List (String × String)) := do
  let names ← inspect (·.list dir)
  return names.filterMap fun name => (nodeOf? name).map fun node => (node, name)

def programsPath (app : String) : String :=
  Path.join dir s!"subroutines_{app}.pkl"

def storedPrograms (path : String) : WorkM (List Subroutine) := do
  match ← inspect (·.content path) with
  | .programs ps => return ps
  | .text _ => throw (.unexplained .badEncoding)

def storePrograms (path : String) (ps : List Subroutine) : WorkM Unit :=
  change (·.write path (.programs ps))

def saveSession (app : String) : WorkM Unit :=
  storePrograms (programsPath dir app) []

def part (d : Datum) (key : String) : Checked Datum :=
  match d with
  | .table _ =>
    match d.field? key with
    | some v => .ok v
    | none => .error .noKey
  | _ => .error .mistyped

-- The number of a program in a list, from the end if it is negative.
def programAt (ps : List Subroutine) (index : Datum) : Checked Subroutine :=
  match index with
  | .int v =>
    let place := if v < 0 then v + ps.length else v
    match if place < 0 then none else ps[place.toNat]? with
    | some p => .ok p
    | none => .error .noIndex
  | _ => .error .mistyped

-- Find the host line of an entry; programs that were sent have none to give.
def completeEntry (ps : List Subroutine) (entry : Datum) : Checked Unit := do
  let _ ← part entry "PRC"
  let _ ← programAt ps (← part entry "SID")
  throw .noAttribute

-- Add host lines to a log if the programs of its node were stored.
def completeLog (node name : String) : WorkM Unit := do
  let stored := programsPath dir node
  if !(← has stored) then return ()
  let ps ← storedPrograms stored
  let path := Path.join dir name
  let d ← readYaml path
  match d with
  | .list entries => entries.forM fun e => (completeEntry ps e : WorkM Unit)
  | .table entries => entries.forM fun (k, _) => (completeEntry ps k : WorkM Unit)
  | .text s => s.toList.forM fun _ => (completeEntry ps .null : WorkM Unit)
  | _ => throw .mistyped
  writeYaml path (.ofDatum d)

def complete : WorkM Unit := do
  (← instructionLogs dir).forM fun (node, name) => completeLog dir node name

def nameForApp (node name : String) : WorkM Unit := do
  match Table.get? node (← get).registry.names with
  | none => throw (.app (.unknownNode node))
  | some [] => throw .noIndex
  | some [(_, app)] => change (·.rename (Path.join dir name) (Path.join dir (app ++ ending)))
  | some _ => throw (.app .severalApps)

def nameForApps : WorkM Unit := do
  (← instructionLogs dir).forM fun (node, name) => nameForApp dir node name

def last : String := "LAST"

-- Copy a log directory to the one for the last run, which it replaces.
def copyToLast : WorkM Unit := do
  let target := Path.join (Path.directory dir) last
  if ← has target then change (·.removeTree target)
  change (·.copyTree dir target)

def process : WorkM Unit := do
  complete dir
  nameForApps dir
  copyToLast dir

end QuantumNode.Logs
