import QuantumNode.Fault

/-
  Loosely typed data, as configuration files and scenarios hold it, and reports, which are data in
  which some outcomes may be faults; the literal text of data, and JSON documents.
-/

namespace QuantumNode

-- Data without a schema; the entries of a table keep their order.
inductive Datum
  | null
  | bool (b : Bool)
  | int (v : Int)
  | float (x : Float)
  | text (s : String)
  | list (items : List Datum)
  | table (entries : List (Datum × Datum))
  deriving Inhabited

namespace Datum

def typeName : Datum → String
  | null => "NoneType"
  | bool _ => "bool"
  | int _ => "int"
  | float _ => "float"
  | text _ => "str"
  | list _ => "list"
  | table _ => "dict"

variable (d : Datum)

def typeText : String :=
  "<class '" ++ d.typeName ++ "'>"

def field? (name : String) : Option Datum :=
  match d with
  | table entries =>
    (entries.find? fun
      | (text k, _) => k == name
      | _ => false).map Prod.snd
  | _ => none

def field (name : String) : Datum :=
  (d.field? name).getD null

def isNull : Datum → Bool
  | null => true
  | _ => false

def int? : Datum → Option Int
  | int v => some v
  | _ => none

def text? : Datum → Option String
  | text s => some s
  | _ => none

def intD (default : Int) : Int :=
  d.int?.getD default

def textD : String :=
  d.text?.getD ""

def isTrue : Datum → Bool
  | bool b => b
  | _ => false

def items : Datum → List Datum
  | list xs => xs
  | _ => []

def fields : Datum → List (String × Datum)
  | table entries => entries.filterMap fun
      | (text k, v) => some (k, v)
      | _ => none
  | _ => []

def record (fields : List (String × Datum)) : Datum :=
  table (fields.map fun (k, v) => (text k, v))

def ofOption (x : Option Int) : Datum :=
  match x with
  | some v => int v
  | none => null

end Datum

-- What a scenario answers: data, data whose fractions are shown as they were given, and records
-- that carry the outcome of an operation beside other fields.
inductive Report
  | datum (d : Datum)
  | plain (d : Datum)
  | list (items : List Report)
  | record (fields : List (String × Report))
  | outcome (result : Except Fault Report) (fields : List (String × Report))

namespace Report

def null : Report := datum .null

def int (v : Int) : Report :=
  datum (.int v)

def bool (b : Bool) : Report :=
  datum (.bool b)

def text (s : String) : Report :=
  datum (.text s)

def texts (ss : List String) : Report :=
  list (ss.map text)

def option (x : Option Int) : Report :=
  datum (.ofOption x)

def ofChecked {α : Type} (f : α → Report) : Checked α → Report
  | .ok a => f a
  | .error fault => outcome (.error fault) []

end Report

end QuantumNode

namespace QuantumNode.Datum

mutual

def literal : Datum → String
  | .null => "None"
  | .bool b => if b then "True" else "False"
  | .int v => toString v
  | .float x => Text.Shortest.text x
  | .text s => Text.Quoted.quote s
  | .list items => "[" ++ ", ".intercalate (literals items) ++ "]"
  | .table entries => "\x7b" ++ ", ".intercalate (entryLiterals entries) ++ "\x7d"

def literals : List Datum → List String
  | [] => []
  | d :: rest => d.literal :: literals rest

def entryLiterals : List (Datum × Datum) → List String
  | [] => []
  | (k, v) :: rest => (k.literal ++ ": " ++ v.literal) :: entryLiterals rest

end

-- A datum within a sentence: a text without quotes, all else as a literal.
def words : Datum → String
  | .text s => s
  | d => d.literal

end QuantumNode.Datum

namespace QuantumNode.Json

abbrev Reader (α : Type) := List Char → Option (α × List Char)

def isBlank (c : Char) : Bool :=
  c = ' ' || c = '\t' || c = '\n' || c = '\r'

variable (cs : List Char) (n : Nat)

def skipBlank : List Char :=
  cs.dropWhile isBlank

def hexNumber : Nat :=
  cs.foldl (fun n c => 16 * n + Bytes.hexValue c) 0

def isHexDigit (c : Char) : Bool :=
  c.isDigit || ('a' ≤ c && c ≤ 'f') || ('A' ≤ c && c ≤ 'F')

def isHighUnit : Bool :=
  0xD800 ≤ n && n < 0xDC00

def isLowUnit : Bool :=
  0xDC00 ≤ n && n < 0xE000

def pairChar (high low : Nat) : Char :=
  Char.ofNat (0x10000 + (high - 0xD800) * 0x400 + (low - 0xDC00))

-- The character of one code unit; half of a pair stands for nothing.
def unitChar : Char :=
  if isHighUnit n || isLowUnit n then Char.ofNat 0xFFFD else Char.ofNat n

def escaped? : Char → Option Char
  | '"' => some '"'
  | '\\' => some '\\'
  | '/' => some '/'
  | 'n' => some '\n'
  | 't' => some '\t'
  | 'r' => some '\r'
  | 'b' => some '\x08'
  | 'f' => some '\x0c'
  | _ => none

def readText : Reader (List Char)
  | [] => none
  | '"' :: rest => some ([], rest)
  | '\\' :: 'u' :: a :: b :: c :: d :: '\\' :: 'u' :: e :: f :: g :: h :: rest =>
    let high := hexNumber [a, b, c, d]
    let low := hexNumber [e, f, g, h]
    if !([a, b, c, d].all isHexDigit) then none
    else if isHighUnit high && isLowUnit low && [e, f, g, h].all isHexDigit then
      (readText rest).map fun (cs, rest) => (pairChar high low :: cs, rest)
    else
      (readText ('\\' :: 'u' :: e :: f :: g :: h :: rest)).map fun (cs, rest) =>
        (unitChar high :: cs, rest)
  | '\\' :: 'u' :: a :: b :: c :: d :: rest =>
    if !([a, b, c, d].all isHexDigit) then none
    else
      (readText rest).map fun (cs, rest) => (unitChar (hexNumber [a, b, c, d]) :: cs, rest)
  | '\\' :: c :: rest =>
    match escaped? c with
    | none => none
    | some c => (readText rest).map fun (cs, rest) => (c :: cs, rest)
  | c :: rest =>
    if c.toNat < 0x20 then none
    else (readText rest).map fun (cs, rest) => (c :: cs, rest)

def digitsNumber : Nat :=
  cs.foldl (fun n c => 10 * n + (c.toNat - '0'.toNat)) 0

-- The digits behind a point, if there is a point with digits behind it.
def readFraction : List Char → List Char × List Char
  | '.' :: c :: rest =>
    if c.isDigit then ((c :: rest).takeWhile Char.isDigit, (c :: rest).dropWhile Char.isDigit)
    else ([], '.' :: c :: rest)
  | cs => ([], cs)

def exponentSign : List Char → Int × List Char
  | '-' :: rest => (-1, rest)
  | '+' :: rest => (1, rest)
  | rest => (1, rest)

def readExponent : Option Int × List Char :=
  match cs with
  | c :: rest =>
    let (sign, digits) := exponentSign rest
    if (c = 'e' || c = 'E') && (digits.head?.any Char.isDigit) then
      (some (sign * digitsNumber (digits.takeWhile Char.isDigit)), digits.dropWhile Char.isDigit)
    else (none, cs)
  | [] => (none, cs)

def scientific (negative : Bool) (digits : Nat) (exponent : Int) : Float :=
  let x := Float.ofScientific digits (exponent < 0) exponent.natAbs
  if negative then -x else x

-- A number without a sign; it has no zeros in front.
def readNumber (negative : Bool) : Reader Datum := fun cs =>
  let whole := match cs with
    | '0' :: _ => ['0']
    | cs => cs.takeWhile Char.isDigit
  if whole.isEmpty then none
  else
    let (part, rest) := readFraction (cs.drop whole.length)
    let (exponent, rest) := readExponent rest
    if part.isEmpty && exponent.isNone then
      let n : Int := digitsNumber whole
      some (.int (if negative then -n else n), rest)
    else
      let e : Int := exponent.getD 0 - part.length
      some (.float (scientific negative (digitsNumber (whole ++ part)) e), rest)

def words : List (String × Datum) :=
  [("null", .null), ("true", .bool true), ("false", .bool false), ("NaN", .float (0.0 / 0.0)),
   ("Infinity", .float (1.0 / 0.0)), ("-Infinity", .float (-1.0 / 0.0))]

def readPlain : Reader Datum := fun cs =>
  match words.find? fun (w, _) => w.toList.isPrefixOf cs with
  | some (w, d) => some (d, cs.drop w.length)
  | none =>
    match cs with
    | '-' :: rest => readNumber true rest
    | cs => readNumber false cs

def putKey (key : String) (v : Datum) : List (Datum × Datum) → List (Datum × Datum)
  | [] => [(.text key, v)]
  | (.text k, w) :: rest =>
    if k == key then (.text k, v) :: rest else (.text k, w) :: putKey key v rest
  | e :: rest => e :: putKey key v rest

mutual

def readValue : Nat → Reader Datum
  | 0, _ => none
  | fuel + 1, cs =>
    match skipBlank cs with
    | '"' :: rest => (readText rest).map fun (t, rest) => (.text (String.ofList t), rest)
    | '[' :: rest =>
      match skipBlank rest with
      | ']' :: rest => some (.list [], rest)
      | rest => readItems fuel [] rest
    | '\x7b' :: rest =>
      match skipBlank rest with
      | '\x7d' :: rest => some (.table [], rest)
      | rest => readEntries fuel [] rest
    | cs => readPlain cs

def readItems : Nat → List Datum → Reader Datum
  | 0, _, _ => none
  | fuel + 1, acc, cs =>
    match readValue fuel cs with
    | none => none
    | some (d, rest) =>
      match skipBlank rest with
      | ',' :: rest => readItems fuel (d :: acc) rest
      | ']' :: rest => some (.list (d :: acc).reverse, rest)
      | _ => none

def readEntries : Nat → List (Datum × Datum) → Reader Datum
  | 0, _, _ => none
  | fuel + 1, acc, cs =>
    match skipBlank cs with
    | '"' :: rest =>
      match readText rest with
      | none => none
      | some (key, rest) =>
        match skipBlank rest with
        | ':' :: rest =>
          match readValue fuel rest with
          | none => none
          | some (v, rest) =>
            let acc := putKey (String.ofList key) v acc
            match skipBlank rest with
            | ',' :: rest => readEntries fuel acc rest
            | '\x7d' :: rest => some (.table acc, rest)
            | _ => none
        | _ => none
    | _ => none

end

def read? (s : String) : Option Datum :=
  match readValue (2 * s.length + 2) s.toList with
  | some (d, rest) => if (skipBlank rest).isEmpty then some d else none
  | none => none

def unitText : List Char :=
  '\\' :: 'u' :: Text.Quoted.hexDigits 4 n

-- One character of a text; those beyond ASCII are written as code units.
def writeChar (c : Char) : List Char :=
  let n := c.toNat
  if c = '"' then ['\\', '"']
  else if c = '\\' then ['\\', '\\']
  else if c = '\n' then ['\\', 'n']
  else if c = '\r' then ['\\', 'r']
  else if c = '\t' then ['\\', 't']
  else if n = 0x08 then ['\\', 'b']
  else if n = 0x0C then ['\\', 'f']
  else if 0x20 ≤ n && n < 0x7F then [c]
  else if n < 0x10000 then unitText n
  else unitText (0xD800 + (n - 0x10000) / 0x400) ++ unitText (0xDC00 + (n - 0x10000) % 0x400)

def writeText (s : String) : String :=
  "\"" ++ String.ofList (s.toList.flatMap writeChar) ++ "\""

def writeFloat (x : Float) : String :=
  if x.isNaN then "NaN"
  else if x.isInf then if x < 0 then "-Infinity" else "Infinity"
  else Text.Shortest.text x

def keyText : Datum → String
  | .text s => s
  | .int v => toString v
  | .float x => writeFloat x
  | .bool b => if b then "true" else "false"
  | _ => "null"

mutual

def write : Datum → String
  | .null => "null"
  | .bool b => if b then "true" else "false"
  | .int v => toString v
  | .float x => writeFloat x
  | .text s => writeText s
  | .list items => "[" ++ ", ".intercalate (writeItems items) ++ "]"
  | .table entries => "\x7b" ++ ", ".intercalate (writeEntries entries) ++ "\x7d"

def writeItems : List Datum → List String
  | [] => []
  | d :: rest => write d :: writeItems rest

def writeEntries : List (Datum × Datum) → List String
  | [] => []
  | (k, v) :: rest => (writeText (keyText k) ++ ": " ++ write v) :: writeEntries rest

end

end QuantumNode.Json
