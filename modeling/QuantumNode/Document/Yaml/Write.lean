import QuantumNode.Document.Json

/-
  What plain scalars of YAML mean: some are numbers, truth values or nothing, all others are texts;
  and how documents are written: collections as indented blocks, texts in quotes if they would be
  read as something else, and long lines folded at spaces.
-/

namespace QuantumNode.Yaml

inductive Kind
  | text
  | null
  | bool
  | int
  | float
  | time
  | merge
  | value
  deriving DecidableEq

def trueWords : List String :=
  ["yes", "Yes", "YES", "true", "True", "TRUE", "on", "On", "ON"]

def falseWords : List String :=
  ["no", "No", "NO", "false", "False", "FALSE", "off", "Off", "OFF"]

def nullWords : List String :=
  ["~", "null", "Null", "NULL", ""]

def infinityWords : List String :=
  [".inf", ".Inf", ".INF"]

def undefinedWords : List String :=
  [".nan", ".NaN", ".NAN"]

---- Shapes of numbers

variable (c : Char) (cs : List Char)

def isDigit : Bool :=
  '0' ≤ c && c ≤ '9'

-- A digit, or the mark that divides groups of digits.
def isGrouped : Bool :=
  isDigit c || c = '_'

def isOctal : Bool :=
  '0' ≤ c && c ≤ '7' || c = '_'

def isBinary : Bool :=
  c = '0' || c = '1' || c = '_'

def isHexadecimal : Bool :=
  Json.isHexDigit c || c = '_'

def unsigned : List Char → List Char
  | '-' :: rest => rest
  | '+' :: rest => rest
  | cs => cs

def someOf (p : Char → Bool) (cs : List Char) : Bool :=
  !cs.isEmpty && cs.all p

def isGroupedDigits : List Char → Bool
  | [] => false
  | c :: rest => isDigit c && rest.all isGrouped

def isSixtieth : List Char → Bool
  | [c] => isDigit c
  | [c, d] => '0' ≤ c && c ≤ '5' && isDigit d
  | _ => false

def sixtieths : List (List Char) :=
  Text.splitAt ':' cs

def isIntBody : List Char → Bool
  | ['0'] => true
  | '0' :: 'b' :: rest => someOf isBinary rest
  | '0' :: 'x' :: rest => someOf isHexadecimal rest
  | '0' :: rest => someOf isOctal rest
  | cs =>
    match sixtieths cs with
    | head :: rest => isGroupedDigits head && rest.all isSixtieth
    | [] => false

def isExponent : List Char → Bool
  | [] => true
  | e :: sign :: rest => (e = 'e' || e = 'E') && (sign = '-' || sign = '+') && someOf isDigit rest
  | _ => false

def isFractionTail : Bool :=
  isExponent (cs.dropWhile isGrouped)

def isPointed : Bool :=
  match cs.dropWhile (· ≠ '.') with
  | '.' :: rest => isGroupedDigits (cs.takeWhile (· ≠ '.')) && isFractionTail rest
  | _ => false

-- Hours, minutes and seconds, the last with a point.
def isPointedSixtieths : Bool :=
  match cs.dropWhile (· ≠ '.') with
  | '.' :: rest =>
    match sixtieths (cs.takeWhile (· ≠ '.')) with
    | head :: more => !more.isEmpty && isGroupedDigits head && more.all isSixtieth &&
        rest.all isGrouped
    | [] => false
  | _ => false

def isFloat : Bool :=
  let body := unsigned cs
  isPointed body || isPointedSixtieths body || infinityWords.contains (String.ofList body) ||
  undefinedWords.contains (String.ofList cs) ||
  (match cs with
   | '.' :: c :: rest => isDigit c && isFractionTail rest
   | _ => false)

def isInt : Bool :=
  isIntBody (unsigned cs)

---- Times

def cutDigits : Nat × List Char :=
  ((cs.takeWhile isDigit).length, cs.dropWhile isDigit)

def cutShort? : Option (List Char) :=
  match cutDigits cs with
  | (1, rest) | (2, rest) => some rest
  | _ => none

def cutTwo? : List Char → Option (List Char)
  | c :: d :: rest => if isDigit c && isDigit d then some rest else none
  | _ => none

def cutChar? : List Char → Option (List Char)
  | d :: rest => if c = d then some rest else none
  | [] => none

def isZone : Bool :=
  let cs := cs.dropWhile fun c => c = ' ' || c = '\t'
  cs == ['Z'] ||
  (match cs with
   | sign :: rest =>
     (sign = '-' || sign = '+') &&
     (match cutShort? rest with
      | some [] => true
      | some (':' :: minutes) => cutTwo? minutes == some []
      | _ => false)
   | [] => false)

def isClock : Bool :=
  let rest? := do
    let minutes ← cutChar? ':' (← cutShort? cs)
    let seconds ← cutChar? ':' (← cutTwo? minutes)
    cutTwo? seconds
  match rest? with
  | none => false
  | some rest =>
    let rest := match rest with
      | '.' :: more => more.dropWhile isDigit
      | _ => rest
    rest.isEmpty || isZone rest

def isTime : Bool :=
  let day? := do
    let month ← cutChar? '-' (← if (cutDigits cs).1 = 4 then some (cutDigits cs).2 else none)
    let day ← cutChar? '-' (← cutShort? month)
    return ((cutDigits month).1, (cutDigits day).1, ← cutShort? day)
  match day? with
  | some (2, 2, []) => true
  | some (_, _, 'T' :: rest) | some (_, _, 't' :: rest) => isClock rest
  | some (_, _, rest) =>
    rest.head?.any (fun c => c = ' ' || c = '\t') &&
    isClock (rest.dropWhile fun c => c = ' ' || c = '\t')
  | none => false

---- Meaning

def Kind.of (s : String) : Kind :=
  let cs := s.toList
  if trueWords.contains s || falseWords.contains s then .bool
  else if isFloat cs then .float
  else if isInt cs then .int
  else if s = "<<" then .merge
  else if nullWords.contains s then .null
  else if isTime cs then .time
  else if s = "=" then .value
  else .text

def ungrouped : List Char :=
  cs.filter (· ≠ '_')

def number (base : Nat) (cs : List Char) : Nat :=
  cs.foldl (fun n c => base * n + Bytes.hexValue c) 0

def intBody : List Char → Nat
  | '0' :: 'b' :: rest => number 2 rest
  | '0' :: 'x' :: rest => number 16 rest
  | '0' :: rest => number 8 rest
  | cs => (sixtieths cs).foldl (fun n part => 60 * n + number 10 part) 0

def decimal : Float :=
  let whole := cs.takeWhile isDigit
  let rest := cs.dropWhile isDigit
  let places := match rest with
    | '.' :: more => more.takeWhile isDigit
    | _ => []
  let exponent : Int := match (rest.drop 1).dropWhile isDigit with
    | _ :: '-' :: digits => -(number 10 digits : Int)
    | _ :: '+' :: digits => number 10 digits
    | _ => 0
  Json.scientific false (number 10 (whole ++ places)) (exponent - places.length)

def floatBody : Float :=
  let s := String.ofList cs
  if infinityWords.contains s then 1.0 / 0.0
  else if undefinedWords.contains s then 0.0 / 0.0
  else if cs.contains ':' then
    ((sixtieths cs).reverse.foldl
      (fun (sum, base) part => (sum + decimal part * base, base * 60.0)) (0.0, 1.0)).1
  else decimal cs

def isNegative : Bool :=
  cs.head? == some '-'

def ofPlain (s : String) : Datum :=
  let cs := ungrouped s.toList
  match Kind.of s with
  | .null => .null
  | .bool => .bool (trueWords.contains s)
  | .int =>
    let n : Int := intBody (unsigned cs)
    .int (if isNegative cs then -n else n)
  | .float =>
    let x := floatBody (unsigned cs)
    .float (if isNegative cs then -x else x)
  | .text | .time | .merge | .value => .text s

---- Nodes

structure Foreign where
  tag : String
  argument : Option Int
  deriving DecidableEq

-- What a document is made of.
inductive Node
  | word (s : String)
  | text (s : String)
  | list (items : List Node)
  | table (entries : List (String × Node))
  | object (o : Foreign)

namespace Node

def floatText (x : Float) : String :=
  let s := Text.Shortest.text x
  if s = "inf" then ".inf"
  else if s = "-inf" then "-.inf"
  else if s = "nan" then ".nan"
  else if s.contains '.' then s
  else String.ofList (s.toList.flatMap fun c => if c = 'e' then ['.', '0', 'e'] else [c])

def keyText : Datum → String
  | .text s => s
  | .int v => toString v
  | .bool b => if b then "true" else "false"
  | .float x => floatText x
  | _ => "null"

def sorted (entries : List (String × Node)) : List (String × Node) :=
  entries.mergeSort fun a b => a.1 ≤ b.1

mutual

def ofDatum : Datum → Node
  | .null => .word "null"
  | .bool b => .word (if b then "true" else "false")
  | .int v => .word (toString v)
  | .float x => .word (floatText x)
  | .text s => .text s
  | .list items => .list (ofItems items)
  | .table entries => .table (sorted (ofEntries entries))

def ofItems : List Datum → List Node
  | [] => []
  | d :: rest => ofDatum d :: ofItems rest

def ofEntries : List (Datum × Datum) → List (String × Node)
  | [] => []
  | (k, v) :: rest => (keyText k, ofDatum v) :: ofEntries rest

end

mutual

def objects : Node → List Foreign
  | .object o => [o]
  | .list items => objectsOfItems items
  | .table entries => objectsOfEntries entries
  | _ => []

def objectsOfItems : List Node → List Foreign
  | [] => []
  | n :: rest => n.objects ++ objectsOfItems rest

def objectsOfEntries : List (String × Node) → List Foreign
  | [] => []
  | (_, n) :: rest => n.objects ++ objectsOfEntries rest

end

end Node

---- Styles of texts

inductive Style
  | plain
  | singleQuoted
  | doubleQuoted
  deriving DecidableEq

def isPrintable : Bool :=
  c = '\n' || (0x20 ≤ c.toNat && c.toNat ≤ 0x7E)

def leadingMarks : List Char :=
  ['#', ',', '[', ']', '\x7b', '\x7d', '&', '*', '!', '|', '>', '\'', '"', '%', '@',
   Char.ofNat 0x60]

def isBlankOrEnd : Option Char → Bool
  | none => true
  | some c => c = ' ' || c = '\t' || c = '\n'

def hasMarkInside : Bool → List Char → Bool
  | _, [] => false
  | afterBlank, c :: rest =>
    (c = ':' && isBlankOrEnd rest.head?) || (c = '#' && afterBlank) ||
    hasMarkInside (isBlankOrEnd (some c)) rest

def hasMark : Bool :=
  match cs with
  | [] => false
  | c :: rest =>
    ['-', '-', '-'].isPrefixOf cs || ['.', '.', '.'].isPrefixOf cs || leadingMarks.contains c ||
    ((c = '?' || c = ':' || c = '-') && isBlankOrEnd rest.head?) ||
    hasMarkInside (isBlankOrEnd (some c)) rest

def follows (a b : Char) : List Char → Bool
  | c :: d :: rest => (c = a && d = b) || follows a b (d :: rest)
  | _ => false

def hasOuterBlank : Bool :=
  [cs.head?, cs.getLast?].any fun c => c == some ' ' || c == some '\n'

def allowsPlain : Bool :=
  cs.all (fun c => isPrintable c && c ≠ '\n') && !hasOuterBlank cs && !hasMark cs

def allowsSingle : Bool :=
  cs.all isPrintable && !follows '\n' ' ' cs && !follows ' ' '\n' cs

def styleOf (s : String) : Style :=
  let cs := s.toList
  if allowsPlain cs && Kind.of s = .text then .plain
  else if allowsSingle cs then .singleQuoted
  else .doubleQuoted

---- Sheets

-- What is written so far: the column, whether a blank stands before it, and whether only
-- indentation stands before it. Objects that occur again are numbered when they are first written.
structure Sheet where
  text : String
  column : Nat
  afterBlank : Bool
  indented : Bool
  shared : List Foreign
  written : List Foreign

namespace Sheet

def put (c : Char) (e : Sheet) : Sheet :=
  if c = '\n' then { e with text := e.text.push c, column := 0 }
  else { e with text := e.text.push c, column := e.column + 1 }

def putAll (cs : List Char) (e : Sheet) : Sheet :=
  cs.foldl (fun e c => e.put c) e

def fill (column : Nat) (e : Sheet) : Sheet :=
  e.putAll (List.replicate (column - e.column) ' ')

variable (indent : Int)

-- Go to a column, on a new line unless only indentation stands there.
def toIndent (e : Sheet) : Sheet :=
  let column := indent.toNat
  let stays := e.indented && (e.column < column || (e.column = column && e.afterBlank))
  let e := if stays then e else e.put '\n'
  { e.fill column with afterBlank := true, indented := true }

def mark (s : String) (needsBlank isBlank isIndent : Bool) (e : Sheet) : Sheet :=
  let e := if needsBlank && !e.afterBlank then e.put ' ' else e
  let e := e.putAll s.toList
  { e with afterBlank := isBlank, indented := e.indented && isIndent }

def settled (e : Sheet) : Sheet :=
  { e with afterBlank := false, indented := false }

def width : Nat := 80

-- Write plain text; a line beyond the width ends at a single space.
def plainChars (indent : Int) (folds : Bool) : Bool → List Char → Sheet → Sheet
  | _, [], e => e
  | afterSpace, c :: rest, e =>
    if c = ' ' then
      if folds && !afterSpace && width < e.column && rest.head? ≠ some ' ' then
        plainChars indent folds true rest (e.toIndent indent)
      else plainChars indent folds true rest (e.put c)
    else plainChars indent folds false rest { e.put c with indented := false }

-- Write text in single quotes; a quote is doubled, a line break too.
def singleChars (indent : Int) (folds : Bool) : Bool → Bool → Bool → List Char → Sheet → Sheet
  | _, _, afterBreak, [], e => if afterBreak then e.toIndent indent else e
  | first, afterSpace, afterBreak, c :: rest, e =>
    if c = ' ' then
      if folds && !afterSpace && width < e.column && !first && !rest.isEmpty &&
          rest.head? ≠ some ' ' then
        singleChars indent folds false true afterBreak rest (e.toIndent indent)
      else singleChars indent folds false true afterBreak rest (e.put c)
    else if c = '\n' then
      let e := if afterBreak then e else e.put '\n'
      singleChars indent folds false afterSpace true rest { e.put '\n' with indented := true }
    else
      let e := if afterBreak then e.toIndent indent else e
      let e := if c = '\'' then e.put '\'' else e
      singleChars indent folds false false false rest { e.put c with indented := false }

def escapeLetter? : Nat → Option Char
  | 0x00 => some '0'
  | 0x07 => some 'a'
  | 0x08 => some 'b'
  | 0x09 => some 't'
  | 0x0A => some 'n'
  | 0x0B => some 'v'
  | 0x0C => some 'f'
  | 0x0D => some 'r'
  | 0x1B => some 'e'
  | 0x22 => some '"'
  | 0x5C => some '\\'
  | 0x85 => some 'N'
  | 0xA0 => some '_'
  | 0x2028 => some 'L'
  | 0x2029 => some 'P'
  | _ => none

def escape (c : Char) : List Char :=
  let digits (n : Nat) : List Char := (Text.Quoted.hexDigits n c.toNat).map Char.toUpper
  match escapeLetter? c.toNat with
  | some letter => ['\\', letter]
  | none =>
    if c.toNat ≤ 0xFF then '\\' :: 'x' :: digits 2
    else if c.toNat ≤ 0xFFFF then '\\' :: 'u' :: digits 4
    else '\\' :: 'U' :: digits 8

-- Write text in double quotes; a folded space before a space is escaped.
def doubleChars (indent : Int) (folds : Bool) : Bool → Bool → List Char → Sheet → Sheet
  | _, _, [], e => e
  | first, afterSpace, c :: rest, e =>
    if c = ' ' then
      if folds && !afterSpace && width < e.column && !first && !rest.isEmpty then
        let e := e.toIndent indent
        doubleChars indent folds false true rest (if rest.head? = some ' ' then e.put '\\' else e)
      else doubleChars indent folds false true rest (e.put c)
    else if !isPrintable c || c = '\n' || c = '"' || c = '\\' then
      doubleChars indent folds false false rest (e.putAll (escape c))
    else doubleChars indent folds false false rest (e.put c)

-- Write a text in its style; lines after the first are indented further.
def scalar (isKey : Bool) (style : Style) (s : String) (e : Sheet) : Sheet :=
  let cs := s.toList
  let indent := if indent < 0 then 2 else indent + 2
  match style with
  | .plain =>
    let e := if !e.afterBlank && !cs.isEmpty then e.put ' ' else e
    (plainChars indent (!isKey) false cs e).settled
  | .singleQuoted =>
    (singleChars indent (!isKey) true false false cs (e.mark "'" true false false)).mark "'"
      false false false
  | .doubleQuoted =>
    (doubleChars indent (!isKey) true false cs (e.mark "\"" true false false)).mark "\""
      false false false

def brackets (opening closing : String) (e : Sheet) : Sheet :=
  (e.mark opening true true false).mark closing false false false

def longestKey : Nat := 128

def nested (stays : Bool) : Int :=
  if indent < 0 then 0 else if stays then indent else indent + 2

def anchor (e : Sheet) (o : Foreign) : String :=
  let number := toString (e.shared.idxOf o + 1)
  "id" ++ "".pushn '0' (3 - number.length) ++ number

def object (inTable : Bool) (o : Foreign) (e : Sheet) : Sheet :=
  if e.shared.contains o && e.written.contains o then e.mark ("*" ++ e.anchor o) true false false
  else
    let e := if e.shared.contains o then e.mark ("&" ++ e.anchor o) true false false else e
    let e := { e with written := o :: e.written }.mark ("!!" ++ o.tag) true false false
    match o.argument with
    | none => e
    | some v =>
      let indent := nested indent inTable
      let e := (e.toIndent indent).mark "-" true false true
      e.scalar indent false .plain (toString v)

mutual

-- Write a node; the keys of tables are texts, lists in tables are not indented.
def node (indent : Int) (inTable : Bool) : Node → Sheet → Sheet
  | .word s, e => e.scalar indent false .plain s
  | .text s, e => e.scalar indent false (styleOf s) s
  | .object o, e => e.object indent inTable o
  | .list [], e => e.brackets "[" "]"
  | .table [], e => e.brackets "\x7b" "\x7d"
  | .list (x :: rest), e =>
    let indent := nested indent (inTable && !e.indented)
    items indent (x :: rest) e
  | .table (x :: rest), e => entries (nested indent false) (x :: rest) e

def items (indent : Int) : List Node → Sheet → Sheet
  | [], e => e
  | x :: rest, e => items indent rest (node indent false x ((e.toIndent indent).mark "-" true false true))

def entries (indent : Int) : List (String × Node) → Sheet → Sheet
  | [], e => e
  | (k, x) :: rest, e =>
    let e := e.toIndent indent
    if k.utf8ByteSize ≤ longestKey && !k.contains '\n' then
      let e := (e.scalar indent true (styleOf k) k).mark ":" false false false
      entries indent rest (node indent true x e)
    else
      let e := (e.mark "?" true false true).scalar indent false (styleOf k) k
      let e := (e.toIndent indent).mark ":" true false true
      entries indent rest (node indent true x e)

end

def blank (n : Node) : Sheet :=
  let repeated := n.objects.foldl (fun (seen, again) o =>
    if again.contains o then (seen, again)
    else if seen.contains o then (seen, again ++ [o])
    else (o :: seen, again)) ([], [])
  ⟨"", 0, true, true, repeated.2, []⟩

end Sheet

def write (n : Node) : String :=
  ((Sheet.node (-1) false n (Sheet.blank n)).toIndent (-1)).text

def writeDatum (d : Datum) : String :=
  write (.ofDatum d)

end QuantumNode.Yaml
