import QuantumNode.Subroutine

/-
  Drafts, and their assembly to the instructions of a flavour. A draft has labels, numbers where the
  machine wants registers, and templates for values that come later. It can be read from a text: a
  preamble of lines that start with a hash, then labels and commands. A number is first put into a
  register that the program does not use, and a label stands for the number of commands before it.
-/

namespace QuantumNode

---- Commands

structure Command where
  op : Op
  args : List Int
  operands : List Operand
  line : Option HostLine
  deriving DecidableEq, Inhabited

namespace Command

def plain (op : Op) (operands : List Operand) (line : Option HostLine) : Command :=
  ⟨op, [], operands, line⟩

def argsText (args : List Int) : String :=
  if args.isEmpty then "" else "(" ++ ",".intercalate (args.map toString) ++ ")"

def text (c : Command) : String :=
  c.op.name ++ argsText c.args ++ " " ++ " ".intercalate (c.operands.map Operand.text)

end Command

inductive Item
  | command (c : Command)
  | label (name : String) (line : Option HostLine)
  deriving DecidableEq

def command (op : Op) (operands : List Operand) : Item :=
  .command (.plain op operands none)

namespace Item

def text : Item → String
  | command c => c.text
  | label name _ => name ++ ":"

def listing : Item → String
  | command c => HostLine.margin c.line ++ c.text
  | label name line => HostLine.margin line ++ name ++ ":"

def line : Item → Option HostLine
  | command c => c.line
  | label _ line => line

def command? : Item → Option Command
  | command c => some c
  | label _ _ => none

def operands : Item → List Operand
  | command c => c.operands
  | label _ _ => []

end Item

---- Drafts

structure Draft where
  version : Option Version
  appId : Option Int
  arguments : List String
  items : List Item
  deriving DecidableEq, Inhabited

namespace Draft

-- Templates among the operands, in the order of their occurrence.
def templates (items : List Item) : List String :=
  items.flatMap fun i => i.operands.filterMap Operand.template?

def ofItems (version : Option Version) (appId : Option Int) (items : List Item) : Draft :=
  ⟨version, appId, templates items, items⟩

def registers (items : List Item) : List Reg :=
  items.flatMap fun i => i.operands.filterMap Operand.reg?

def listingLines : Nat → List Item → String
  | _, [] => ""
  | n, i :: rest =>
    Text.padLeft 4 (toString n) ++ " " ++ i.listing ++ "\n" ++ listingLines (n + 1) rest

def text (d : Draft) : String :=
  "ProtoSubroutine" ++ argumentsText d.arguments ++ "\n"
    ++ "  NetQASM version: " ++ Version.text d.version ++ "\n"
    ++ "  App ID: " ++ appIdText d.appId ++ "\n"
    ++ " LN | HLN | CMD\n" ++ listingLines 0 d.items

-- Give values to the templates of commands; labels are dropped.
def fillItems (values : List (String × Int)) : List Item → Checked (List Item)
  | [] => .ok []
  | .label _ _ :: rest => fillItems values rest
  | .command c :: rest => do
    let operands ← Subroutine.fill (some values) c.operands
    return .command { c with operands := operands } :: (← fillItems values rest)

def instantiate (d : Draft) (appId : Int) (values : List (String × Int)) : Checked Draft := do
  let items ← fillItems values d.items
  return { d with items := items, appId := some appId }

end Draft

end QuantumNode

namespace QuantumNode.Constants

def keeps : Op → Nat → Bool
  | .set, j => j == 1
  | .jmp, j => j == 0
  | .bez, j | .bnz, j => j == 1
  | .beq, j | .bne, j | .blt, j | .bge, j => j == 2
  | .breakpoint, j => j == 0 || j == 1
  | .rotX, j | .rotY, j | .rotZ, j => j == 1 || j == 2
  | .crotX, j | .crotY, j | .crotZ, j => j == 2 || j == 3
  | .measBasis, j => 2 ≤ j && j ≤ 5
  | _, _ => false

def fresh? (taken : List Reg) : Option Reg :=
  (Reg.ofBank .r).find? fun r => !taken.contains r

-- The state while one command is rewritten: the commands to be put before it and the registers they
-- set.
structure Pending where
  sets : List Item
  temps : List Reg

variable (used : List Reg)

def assign (line : Option HostLine) (pending : Pending)
    (value : Operand) : Checked (Reg × Pending) :=
  match fresh? (used ++ pending.temps) with
  | none => .error (.language .noRegistersLeft)
  | some r =>
    .ok (r, ⟨pending.sets ++ [.command (.plain .set [.reg r, value] line)], pending.temps ++ [r]⟩)

def replaceIndex (line : Option HostLine) (pending : Pending) : Index → Checked (Index × Pending)
  | .int v => do
    let (r, pending) ← assign used line pending (.int v)
    return (.reg r, pending)
  | .shown v words => do
    let (r, pending) ← assign used line pending (.shown v words)
    return (.reg r, pending)
  | .reg r => .ok (.reg r, pending)

def replaceOperand (c : Command) (j : Nat)
    (pending : Pending) : Operand → Checked (Operand × Pending)
  | .int v =>
    if keeps c.op j then .ok (.int v, pending)
    else do
      let (r, pending) ← assign used c.line pending (.int v)
      return (.reg r, pending)
  | .shown v words =>
    if keeps c.op j then .ok (.shown v words, pending)
    else do
      let (r, pending) ← assign used c.line pending (.shown v words)
      return (.reg r, pending)
  | .entry a i => do
    let (i, pending) ← replaceIndex used c.line pending i
    return (.entry a i, pending)
  | .slice a lo hi => do
    let (lo, pending) ← replaceIndex used c.line pending lo
    let (hi, pending) ← replaceIndex used c.line pending hi
    return (.slice a lo hi, pending)
  | o => .ok (o, pending)

def replaceOperands (used : List Reg)
    (c : Command) : Nat → Pending → List Operand → Checked (List Operand × Pending)
  | _, pending, [] => .ok ([], pending)
  | j, pending, o :: rest => do
    let (o, pending) ← replaceOperand used c j pending o
    let (rest, pending) ← replaceOperands used c (j + 1) pending rest
    return (o :: rest, pending)

def replaceCommand (c : Command) : Checked (List Item) := do
  let (operands, pending) ← replaceOperands used c 0 ⟨[], []⟩ c.operands
  return pending.sets ++ [.command { c with operands := operands }]

def replaceItems (used : List Reg) : List Item → Checked (List Item)
  | [] => .ok []
  | .label name line :: rest => do return .label name line :: (← replaceItems used rest)
  | .command c :: rest => do return (← replaceCommand used c) ++ (← replaceItems used rest)

def replace (items : List Item) : Checked (List Item) :=
  replaceItems (Draft.registers items) items

end QuantumNode.Constants

namespace QuantumNode.Source
open Text

---- Values and addresses

def splitBracket (b : Words.Brackets) (word : List Char) : Checked (List Char × List Char) :=
  match cut? [b.opening] word with
  | none => .ok (word, [])
  | some (front, back) =>
    if word.getLast? = some b.closing then .ok (front, b.opening :: back)
    else .error (.language (.noEndBracket (String.ofList word) b.closing))

variable (word : List Char) (line : List Char)

def parseConstant : Checked Int :=
  if Numeral.isNumeral word then .ok (Numeral.value word)
  else .error (.language (.expectedConstant (String.ofList word)))

-- A constant or a register. A word that is neither is not a value here; an empty word has no first
-- letter to look at.
def parseIndex : Checked Index :=
  if Numeral.isNumeral word then .ok (.int (Numeral.value word))
  else
    match Reg.parse word with
    | .ok r => .ok (.reg r)
    | .error (.language _) => .error (.language (.notAValue (String.ofList word)))
    | .error fault => .error fault

def parseTemplate : Checked Operand :=
  let b := Words.Brackets.curly
  if word.head? = some b.opening && word.getLast? = some b.closing then
    .ok (.template (String.ofList (strip (stripOf b.chars word))))
  else .error .unmet

def parseValue : Checked Operand :=
  match parseIndex word with
  | .ok (.int v) => .ok (.int v)
  | .ok (.shown v words) => .ok (.shown v words)
  | .ok (.reg r) => .ok (.reg r)
  | .error (.language _) => do
    if ← Words.isName word then return .label (String.ofList word)
    parseTemplate word
  | .error fault => .error fault

def parseBase : Checked Int :=
  if word.head? = some '@' then
    match parseIndex (word.dropWhile (· = '@')) with
    | .ok (.int v) | .ok (.shown v _) => .ok v
    | .ok (.reg _) => .error (.language .addressIsRegister)
    | .error fault => .error fault
  else .error (.language (.expectedAddress (String.ofList word)))

def parseAddress : Checked Operand := do
  let (base, place) ← splitBracket Words.Brackets.square word
  let address ← parseBase base
  if place = [] then return .addr address
  let inner := strip (stripOf Words.Brackets.square.chars place)
  match splitAt ':' inner with
  | [] => return .entry address (← parseIndex inner)
  | [_] => return .entry address (← parseIndex inner)
  | [start, stop] =>
    let lo ← parseIndex (strip start)
    let hi ← parseIndex (strip stop)
    return .slice address lo hi
  | _ => throw .malformed

def parseOperand : Checked Operand :=
  if word.head? = some '@' then parseAddress word else parseValue word

def parseOperands : List (List Char) → Checked (List Operand)
  | [] => .ok []
  | word :: rest => do return (← parseOperand (strip word)) :: (← parseOperands rest)

def parseConstants : List (List Char) → Checked (List Int)
  | [] => .ok []
  | word :: rest => do return (← parseConstant (strip word)) :: (← parseConstants rest)

def parseArgs (args : List Char) : Checked (List Int) :=
  if args = [] then .ok []
  else parseConstants (splitAt ',' (stripOf Words.Brackets.round.chars args))

-- A label ends with a colon; any other line is a command.
def parseItem : Checked Item := do
  if line.getLast? = some ':' then
    let name := trimRightBy (· = ':') line
    if ← Words.isName name then return .label (String.ofList name) none
    throw (.language (.badLabel (String.ofList name)))
  match ← Words.split .space (some .round) line with
  | [] => throw .noIndex
  | first :: rest =>
    let (name, args) ← splitBracket .round first
    let op ← Op.parse (String.ofList name)
    let args ← parseArgs args
    let operands ← parseOperands rest
    return .command ⟨op, args, operands, none⟩

def parseItems : List (List Char) → Checked (List Item)
  | [] => .ok []
  | line :: rest => do return (← parseItem line) :: (← parseItems rest)

-- A line without outer white space and without its comment.
def cleanLine : List Char :=
  before ['/', '/'] (strip line)

def isPreamble : Bool :=
  line.head? = some '#'

def preambleBody : List Char :=
  strip (line.dropWhile (· = '#'))

-- Preamble and body of a text. No preamble line may follow a line of the body.
def sections (text : List Char) : Checked (List (List Char) × List (List Char)) :=
  let lines := ((splitAt '\n' text).map cleanLine).filter (· ≠ [])
  let head := lines.takeWhile isPreamble
  let body := lines.dropWhile isPreamble
  if body.any isPreamble then .error (.language .preambleAfterBody)
  else .ok (head.map preambleBody, body)

---- Preamble

-- The words of each preamble line, by its first word.
abbrev Entries := List (String × List (List String))

def Entries.push (name : String) (words : List String) : Entries → Entries
  | [] => [(name, [words])]
  | (other, rows) :: rest =>
    if other = name then (other, rows ++ [words]) :: rest
    else (other, rows) :: Entries.push name words rest

def entriesOf (found : Entries) : List (List Char) → Checked Entries
  | [] => .ok found
  | line :: rest =>
    match Words.split .space (some .curly) line with
    | .error fault => .error (.language (.preambleWords (fault.message?.getD "")))
    | .ok [] => .error .malformed
    | .ok (first :: words) =>
      entriesOf (found.push (String.ofList first) (words.map String.ofList)) rest

def checkSingle (name : String) (rows : List (List String)) : Checked Unit :=
  match rows with
  | [words] =>
    if words.length = 1 then .ok () else .error (.language (.preambleArgument name words))
  | _ => .error (.language (.preambleRepeated name))

def macroKeys : List (List String) → Checked (List String)
  | [] => .ok []
  | [key, _] :: rest => do
    if ← Words.isName key.toList then return key :: (← macroKeys rest)
    throw (.language (.badMacroKey key))
  | words :: _ => .error (.language (.macroArguments words))

def checkMacros (rows : List (List String)) : Checked Unit := do
  let keys ← macroKeys rows
  demand keys.Nodup (.language (.duplicateMacroKeys keys))

def checkEntries : Entries → Checked Unit
  | [] => .ok ()
  | (name, rows) :: rest => do
    if name = "NETQASM" ∨ name = "APPID" then checkSingle name rows
    else if name = "DEFINE" then checkMacros rows
    else throw (.language (.preambleUnknown name))
    checkEntries rest

structure Preamble where
  version : Option String
  appId : Option String
  macros : List (String × String)

def pairs (rows : List (List String)) : List (String × String) :=
  rows.filterMap fun
    | [key, value] => some (key, value)
    | _ => none

def single? (entries : Entries) (name : String) : Option String :=
  ((entries.lookup name).bind List.head?).bind List.head?

def parsePreamble (lines : List (List Char)) : Checked Preamble := do
  let entries ← entriesOf [] lines
  checkEntries entries
  return {
    version := single? entries "NETQASM"
    appId := single? entries "APPID"
    macros := pairs ((entries.lookup "DEFINE").getD []) }

def parseVersion (text : String) : Checked Version :=
  let fail cause := .error (.language (.badVersion text cause))
  match splitAt '.' (strip text.toList) with
  | [major, minor] =>
    match Numeral.lenient? major, Numeral.lenient? minor with
    | some a, some b => .ok ⟨a, b⟩
    | none, _ => fail (.notANumber (String.ofList major))
    | _, none => fail (.notANumber (String.ofList minor))
  | [] => fail .tooFewParts
  | [_] => fail .tooFewParts
  | _ => fail .tooManyParts

def expandOne (body : List Char) (m : String × String) : List Char :=
  replaceAll ('$' :: m.1.toList) (stripOf Words.Brackets.curly.chars m.2.toList) body

def expand (macros : List (String × String)) (body : List (List Char)) : List (List Char) :=
  if body.isEmpty then []
  else splitAt '\n' (macros.foldl expandOne (join ['\n'] body))

def parse (text : String) : Checked Draft := do
  let (head, body) ← sections text.toList
  let preamble ← parsePreamble head
  let items ← parseItems (expand preamble.macros body)
  let version ← preamble.version.mapM parseVersion
  let appId ← preamble.appId.mapM fun word =>
    match Numeral.lenient? word.toList with
    | some v => .ok v
    | none => .error .malformed
  return Draft.ofItems version appId items

end QuantumNode.Source

namespace QuantumNode.Labels

-- The position of each label, when the given number of commands stands before the items. Labels
-- have to differ.
def positionsFrom (found : List (String × Nat)) : Nat → List Item → Checked (List (String × Nat))
  | _, [] => .ok found
  | n, .label name _ :: rest =>
    if (found.lookup name).isSome then .error (.language (.duplicateLabel name))
    else positionsFrom (found ++ [(name, n)]) n rest
  | n, .command _ :: rest => positionsFrom found (n + 1) rest

def positions (items : List Item) : Checked (List (String × Nat)) :=
  positionsFrom [] 0 items

def resolveOperand (table : List (String × Nat)) : Operand → Operand
  | .label name =>
    match table.lookup name with
    | some n => .int n
    | none => .label name
  | o => o

def resolve (items : List Item) : Checked (List Item) := do
  let table ← positions items
  return (items.filterMap Item.command?).map fun c =>
    .command { c with operands := c.operands.map (resolveOperand table) }

end QuantumNode.Labels

namespace QuantumNode.Assembly

structure Options where
  labels : Bool
  args : Bool
  constants : Bool

def Options.full : Options := ⟨true, true, true⟩

def liftArgs : Item → Item
  | .command c => .command { c with operands := c.args.map Operand.int ++ c.operands, args := [] }
  | i => i

-- A step that is carried out only if chosen.
def optionally (chosen : Bool) (step : List Item → Checked (List Item))
    (items : List Item) : Checked (List Item) :=
  if chosen then step items else .ok items

variable (o : Options)

def prepare (items : List Item) : Checked (List Item) := do
  let items ← optionally o.args (fun items => .ok (items.map liftArgs)) items
  let items ← optionally o.constants Constants.replace items
  optionally o.labels Labels.resolve items

def buildCommand (flavour : Flavour) (c : Command) : Checked Instr :=
  match flavour.byOp? c.op with
  | none => .error .noKey
  | some (family, op) => Instr.ofOperands family op c.operands c.line

def buildItems (flavour : Flavour) : List Item → Checked (List Instr)
  | [] => .ok []
  | .label _ _ :: _ => .error .unmet
  | .command c :: rest => do
    return (← buildCommand flavour c) :: (← buildItems flavour rest)

def build (flavour : Flavour) (d : Draft) (items : List Item) : Checked Subroutine := do
  let instrs ← buildItems flavour items
  return ⟨d.version, d.appId, d.arguments, instrs⟩

def assemble (flavour : Flavour) (d : Draft) : Checked Subroutine := do
  build flavour d (← prepare o d.items)

def ofText (flavour : Flavour) (text : String) : Checked Subroutine := do
  assemble o flavour (← Source.parse text)

end QuantumNode.Assembly
