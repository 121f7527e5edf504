import QuantumNode.Text

/-
  The options of commands and their help pages, how the words of a command line are read as options
  and arguments, and the words of a list that a mistyped word was perhaps meant to be.

  Two words are as alike as the number of characters says that they have in common: those of the
  longest block in both, and those that the parts before the block and the parts after it have in
  common.
-/

namespace QuantumNode

inductive OptionShape
  | flag
  | text
  | existingPath
  | integer
  | boolean
  | choice (words : List String)
  deriving DecidableEq

-- An option with its name and perhaps a letter for it. A flag that can be negated has a second
-- name.
structure OptionSpec where
  letter : Option Char
  name : String
  shape : OptionShape
  isNegatable : Bool
  about : String
  deriving DecidableEq

namespace OptionSpec

def shortName (c : Char) : String :=
  String.ofList ['-', c]

variable (o : OptionSpec)

def longName : String :=
  "--" ++ o.name

def negatedName : String :=
  "--no-" ++ o.name

def longNames (options : List OptionSpec) : List String :=
  options.flatMap fun o => o.longName :: if o.isNegatable then [o.negatedName] else []

def names : List String :=
  (o.letter.map shortName).toList ++ [o.longName]

def hint : String :=
  " / ".intercalate (o.names.map fun n => "'" ++ n ++ "'")

def takesValue : Bool :=
  o.shape ≠ .flag

def help : OptionSpec where
  letter := some 'h'
  name := "help"
  shape := .flag
  isNegatable := false
  about := "Show this message and exit."

end OptionSpec

inductive UsageFault
  | unknownOption (name : String) (close : List String)
  | unknownCommand (name : String)
  | missingCommand
  | missingArgument (name : String)
  | extraArguments (arguments : List String)
  | missingValue (name : String)
  | needlessValue (name : String)
  | notAChoice (o : OptionSpec) (value : String) (words : List String)
  | notAnInteger (o : OptionSpec) (value : String)
  | notABoolean (o : OptionSpec) (value : String)
  | missingPath (o : OptionSpec) (value : String)
  | destinationExists (path : String)
  deriving DecidableEq

namespace UsageFault

def suggestion : List String → String
  | [] => ""
  | [name] => s!" Did you mean {name}?"
  | names => " (Possible options: " ++ ", ".intercalate names ++ ")"

def invalidValue (o : OptionSpec) (value : String) (rest : String) : String :=
  "Invalid value for " ++ o.hint ++ ": " ++ Text.Quoted.quote value ++ rest

def message : UsageFault → String
  | unknownOption name close => s!"No such option: {name}" ++ suggestion close
  | unknownCommand name => "No such command " ++ Text.Quoted.quote name ++ "."
  | missingCommand => "Missing command."
  | missingArgument name => s!"Missing argument '{name}'."
  | extraArguments [a] => s!"Got unexpected extra argument ({a})"
  | extraArguments as => "Got unexpected extra arguments (" ++ " ".intercalate as ++ ")"
  | missingValue name => s!"Option '{name}' requires an argument."
  | needlessValue name => s!"Option '{name}' does not take a value."
  | notAChoice o value words =>
    invalidValue o value (" is not one of " ++ ", ".intercalate (words.map Text.Quoted.quote) ++ ".")
  | notAnInteger o value => invalidValue o value " is not a valid integer."
  | notABoolean o value => invalidValue o value " is not a valid boolean."
  | missingPath o value =>
    "Invalid value for " ++ o.hint ++ ": Path " ++ Text.Quoted.quote value ++ " does not exist."
  | destinationExists path =>
    s!"destination `{path}` already exists\n\nUse `netqasm init` to initialize the directory"

end UsageFault

-- What is said of a command: its name, what follows the name in a command line, paragraphs about
-- it, and its options.
structure Synopsis where
  name : String
  pieces : List String
  about : List String
  options : List OptionSpec

namespace Synopsis
variable (s : Synopsis)

def allOptions : List OptionSpec :=
  s.options ++ [.help]

def usage (path : String) : String :=
  " ".intercalate (["Usage:", path] ++ s.pieces)

def firstSentence : List String → List String
  | [] => []
  | word :: rest => if word.endsWith "." then [word] else word :: firstSentence rest

def summary : String :=
  " ".intercalate (firstSentence ((s.about.headD "").splitOn " "))

end Synopsis

namespace HelpPage

def width : Nat := 80

def indent : Nat := 2

def widestColumn : Nat := 30

def columnSpace : Nat := 2

def spaces (n : Nat) : String :=
  String.ofList (List.replicate n ' ')

-- Put words on lines of a width, where a line is already begun.
def fillFrom (width : Nat) (line : String) : List String → List String
  | [] => [line]
  | word :: rest =>
    if line.length + 1 + word.length ≤ width then fillFrom width (line ++ " " ++ word) rest
    else line :: fillFrom width word rest

def wrap (width : Nat) (text : String) : List String :=
  match text.splitOn " " with
  | [] => []
  | word :: rest => fillFrom width word rest

def placeholder : OptionShape → String
  | .flag => ""
  | .text => " TEXT"
  | .existingPath => " PATH"
  | .integer => " INTEGER"
  | .boolean => " BOOLEAN"
  | .choice words => " [" ++ "|".intercalate words ++ "]"

def term (o : OptionSpec) : String :=
  ", ".intercalate o.names ++ placeholder o.shape
    ++ if o.isNegatable then " / " ++ o.negatedName else ""

def definition (column : Nat) (term about : String) : List String :=
  let margin := spaces (indent + column + columnSpace)
  let lines := wrap (width - column - columnSpace - indent) about
  if about.isEmpty then [spaces indent ++ term]
  else if term.length ≤ column then
    match lines with
    | [] => [spaces indent ++ term]
    | line :: rest =>
      (spaces indent ++ term ++ spaces (column + columnSpace - term.length) ++ line)
        :: rest.map (margin ++ ·)
  else (spaces indent ++ term) :: lines.map (margin ++ ·)

def definitions (rows : List (String × String)) : List String :=
  let column := min widestColumn ((rows.map fun r => r.1.length).foldl max 0)
  rows.flatMap fun (term, about) => definition column term about

def part (heading : String) (rows : List (String × String)) : List String :=
  if rows.isEmpty then [] else ["", heading ++ ":"] ++ definitions rows

def text (s : Synopsis) (path : String) (members : List Synopsis) : String :=
  let paragraphs := s.about.flatMap fun p =>
    "" :: (wrap (width - indent) p).map (spaces indent ++ ·)
  let lines := [s.usage path] ++ paragraphs
    ++ part "Options" (s.allOptions.map fun o => (term o, o.about))
    ++ part "Commands" (members.map fun m => (m.name, m.summary))
  "\n".intercalate lines ++ "\n"

def refusal (s : Synopsis) (path : String) (f : UsageFault) : String :=
  s.usage path ++ s!"\nTry '{path} -h' for help.\n\nError: " ++ f.message ++ "\n"

end HelpPage

end QuantumNode

namespace QuantumNode.Closest

def sharedStart : List Char → List Char → Nat
  | a :: as, b :: bs => if a = b then sharedStart as bs + 1 else 0
  | _, _ => 0

-- A block of characters: where it starts in each of two words, and its length.
structure Block where
  first : Nat
  second : Nat
  size : Nat

def Block.longer (b c : Block) : Block :=
  if b.size < c.size then c else b

def blockAt (as bs : List Char) (i : Nat) : Block :=
  ((List.range bs.length).map fun j : Nat =>
    (⟨i, j, sharedStart (as.drop i) (bs.drop j)⟩ : Block)).foldl Block.longer ⟨0, 0, 0⟩

def sharedBlock (as bs : List Char) : Block :=
  ((List.range as.length).map (blockAt as bs)).foldl Block.longer ⟨0, 0, 0⟩

def sharedWithin : Nat → List Char → List Char → Nat
  | 0, _, _ => 0
  | n + 1, as, bs =>
    let b := sharedBlock as bs
    if b.size = 0 then 0
    else b.size + sharedWithin n (as.take b.first) (bs.take b.second)
      + sharedWithin n (as.drop (b.first + b.size)) (bs.drop (b.second + b.size))

def shared (a b : String) : Nat :=
  sharedWithin a.length a.toList b.toList

structure Candidate where
  word : String
  shared : Nat
  total : Nat

namespace Candidate

def of (typed word : String) : Candidate :=
  ⟨word, Closest.shared word typed, word.length + typed.length⟩

def isClose (c : Candidate) : Bool :=
  3 * c.total ≤ 10 * c.shared

-- Whether a candidate is closer, or as close and later in the alphabet.
def isBefore (c d : Candidate) : Bool :=
  let ours := c.shared * d.total
  let theirs := d.shared * c.total
  if ours = theirs then d.word ≤ c.word else theirs < ours

end Candidate

def limit : Nat := 3

def words (typed : String) (known : List String) : List String :=
  let close := (known.map (Candidate.of typed)).filter Candidate.isClose
  (((close.mergeSort Candidate.isBefore).take limit).map Candidate.word).mergeSort (· ≤ ·)

end QuantumNode.Closest

namespace QuantumNode

inductive OptionValue
  | isOn
  | isOff
  | text (s : String)
  deriving DecidableEq

structure OptionUse where
  option : OptionSpec
  value : OptionValue
  deriving DecidableEq

-- An option that waits for its value, under the name it was given.
structure OpenOption where
  name : String
  option : OptionSpec

-- What a word is read as: uses of options, the last of which may need the next word.
structure WordReading where
  uses : List OptionUse
  waiting : Option OpenOption

namespace Arguments

abbrev Reading (α : Type) := Except UsageFault α

-- Read letters of options, of which the last may be followed by its value.
def readLetters (options : List OptionSpec) : List Char → Reading WordReading
  | [] => .ok ⟨[], none⟩
  | c :: rest =>
    match options.find? fun o => o.letter = some c with
    | none => .error (.unknownOption (OptionSpec.shortName c) [])
    | some o =>
      if o.takesValue then
        if rest.isEmpty then .ok ⟨[], some ⟨OptionSpec.shortName c, o⟩⟩
        else .ok ⟨[⟨o, .text (String.ofList rest)⟩], none⟩
      else
        match readLetters options rest with
        | .ok r => .ok { r with uses := ⟨o, .isOn⟩ :: r.uses }
        | .error f => .error f

def splitValue (word : String) : String × Option String :=
  match Text.cut? ['='] word.toList with
  | some (name, value) => (String.ofList name, some (String.ofList value))
  | none => (word, none)

variable (options : List OptionSpec)

-- The flag that a long name sets, or the option that needs a value.
def findLong? (name : String) : Option OptionUse :=
  options.findSome? fun o =>
    if o.longName = name then some ⟨o, .isOn⟩
    else if o.isNegatable && o.negatedName = name then some ⟨o, .isOff⟩
    else none

def readLong (word : String) : Reading WordReading :=
  let (name, value?) := splitValue word
  match findLong? options name with
  | none => .error (.unknownOption name (Closest.words name (OptionSpec.longNames options)))
  | some u =>
    match u.option.takesValue, value? with
    | true, some v => .ok ⟨[⟨u.option, .text v⟩], none⟩
    | true, none => .ok ⟨[], some ⟨name, u.option⟩⟩
    | false, some _ => .error (.needlessValue name)
    | false, none => .ok ⟨[u], none⟩

def isOption (word : String) : Bool :=
  word.startsWith "-" && 1 < word.length

def readWord (word : String) : Reading WordReading :=
  if word.startsWith "--" then readLong options word
  else readLetters options (word.toList.drop 1)

-- Read the words of a command line. Two dashes end the options; so does the first argument unless
-- options and arguments may be mixed.
def read (options : List OptionSpec)
    (mixed : Bool) : List String → Reading (List OptionUse × List String)
  | [] => .ok ([], [])
  | word :: rest =>
    if word = "--" then .ok ([], rest)
    else if isOption word then do
      let r ← readWord options word
      match r.waiting with
      | none =>
        let (uses, arguments) ← read options mixed rest
        return (r.uses ++ uses, arguments)
      | some w =>
        match rest with
        | [] => throw (.missingValue w.name)
        | value :: rest =>
          let (uses, arguments) ← read options mixed rest
          return (r.uses ++ ⟨w.option, .text value⟩ :: uses, arguments)
    else if mixed then do
      let (uses, arguments) ← read options mixed rest
      return (uses, word :: arguments)
    else .ok ([], word :: rest)

def used (uses : List OptionUse) : List OptionSpec :=
  uses.foldl (fun os u => if os.contains u.option then os else os ++ [u.option]) []

def valueOf? (uses : List OptionUse) (name : String) : Option OptionValue :=
  (uses.reverse.find? (·.option.name = name)).map (·.value)

def truths : List String := ["1", "true", "t", "yes", "y", "on"]

def falsehoods : List String := ["0", "false", "f", "no", "n", "off"]

def checkValue (exists_ : String → Bool) (o : OptionSpec) (value : String) : Reading Unit :=
  match o.shape with
  | .flag | .text => .ok ()
  | .existingPath => if exists_ value then .ok () else .error (.missingPath o value)
  | .integer =>
    if (Text.Numeral.lenient? value.toList).isSome then .ok () else .error (.notAnInteger o value)
  | .boolean =>
    let word := (String.ofList (Text.strip value.toList)).toLower
    if (truths ++ falsehoods).contains word then .ok () else .error (.notABoolean o value)
  | .choice words => if words.contains value then .ok () else .error (.notAChoice o value words)

def check (exists_ : String → Bool) (uses : List OptionUse) : Reading Unit :=
  (used uses).forM fun o =>
    match valueOf? uses o.name with
    | some (.text value) => checkValue exists_ o value
    | _ => .ok ()

end Arguments

structure Choices where
  uses : List OptionUse
  arguments : List String

namespace Choices
variable (c : Choices)

def text? (name : String) : Option String :=
  match Arguments.valueOf? c.uses name with
  | some (.text s) => some s
  | _ => none

def isOn (name : String) : Bool :=
  Arguments.valueOf? c.uses name = some .isOn

def argument : String :=
  c.arguments.headD ""

end Choices

end QuantumNode
