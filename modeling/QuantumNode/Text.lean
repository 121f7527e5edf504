/-
  Texts and bytes. Readers share the cuts, splits and trims of character lists. Numerals have a
  strict form in programs, a lenient one in version numbers, and for floating-point numbers a text
  with a fixed number of places, where a half goes to the even neighbour, or the fewest digits that
  read back as the same number. Texts are shown in quotes, with escapes.
-/

namespace QuantumNode

abbrev Bytes := List UInt8

namespace Bytes

def ofNat : Nat → Nat → Bytes
  | 0, _ => []
  | width + 1, n => UInt8.ofNat (n % 256) :: ofNat width (n / 256)

-- The lowest bytes of an integer in two's complement.
def ofInt (width : Nat) (v : Int) : Bytes :=
  ofNat width (v % (Nat.pow 256 width : Int)).toNat

def toNat : Bytes → Nat
  | [] => 0
  | b :: rest => b.toNat + 256 * toNat rest

-- The integer that a row of bytes in two's complement stands for.
def toInt (bs : Bytes) : Int :=
  if 2 * toNat bs < Nat.pow 256 bs.length then toNat bs
  else (toNat bs : Int) - (Nat.pow 256 bs.length : Int)

def hexDigits (b : UInt8) : List Char :=
  [Nat.digitChar (b.toNat / 16), Nat.digitChar (b.toNat % 16)]

def hex (bs : Bytes) : String :=
  String.ofList (bs.flatMap hexDigits)

def hexValue (c : Char) : Nat :=
  if '0' ≤ c && c ≤ '9' then c.toNat - '0'.toNat
  else if 'a' ≤ c && c ≤ 'f' then c.toNat - 'a'.toNat + 10
  else if 'A' ≤ c && c ≤ 'F' then c.toNat - 'A'.toNat + 10
  else 0

def ofHex : List Char → Bytes
  | a :: b :: rest => UInt8.ofNat (16 * hexValue a + hexValue b) :: ofHex rest
  | _ => []

def zeros (n : Nat) : Bytes :=
  List.replicate n 0

end Bytes

end QuantumNode

namespace QuantumNode.Text

-- The text before the first occurrence of a needle and the text after it.
def cut? (needle : List Char) : List Char → Option (List Char × List Char)
  | [] => if needle.isEmpty then some ([], []) else none
  | c :: rest =>
    if needle.isPrefixOf (c :: rest) then
      some ([], (c :: rest).drop needle.length)
    else
      (cut? needle rest).map fun (front, back) => (c :: front, back)

theorem cut?_length {needle s front back : List Char} (h : cut? needle s = some (front, back)) :
    front.length + needle.length + back.length = s.length := by
  induction s generalizing front back with
  | nil =>
    unfold cut? at h
    split at h
    · rename_i hEmpty
      cases h
      simp [List.isEmpty_iff.1 hEmpty]
    · cases h
  | cons c rest ih =>
    unfold cut? at h
    split at h
    · rename_i hPrefix
      cases h
      have hLen := (List.isPrefixOf_iff_prefix.1 hPrefix).length_le
      simp only [List.length_nil, List.length_drop]
      omega
    · cases hRest : cut? needle rest with
      | none => rw [hRest] at h; cases h
      | some p =>
        obtain ⟨f, b⟩ := p
        rw [hRest] at h
        simp only [Option.map_some, Option.some.injEq, Prod.mk.injEq] at h
        obtain ⟨rfl, rfl⟩ := h
        have := ih hRest
        simp only [List.length_cons]
        omega

-- The text before the first occurrence of a needle, or all of it.
def before (needle s : List Char) : List Char :=
  match cut? needle s with
  | some (front, _) => front
  | none => s

def occurs (needle s : List Char) : Bool :=
  (cut? needle s).isSome

def splitAt (sep : Char) : List Char → List (List Char)
  | [] => [[]]
  | c :: rest =>
    match splitAt sep rest with
    | [] => [[c]]
    | piece :: pieces =>
      if c = sep then [] :: piece :: pieces else (c :: piece) :: pieces

-- Replace the occurrences of a needle from left to right; the replacement is not searched again.
def replaceAll (needle replacement s : List Char) : List Char :=
  if hNeedle : needle = [] then s
  else
    match h : cut? needle s with
    | none => s
    | some (front, back) => front ++ replacement ++ replaceAll needle replacement back
termination_by s.length
decreasing_by
  have := cut?_length h
  have : 0 < needle.length := List.length_pos_iff.2 hNeedle
  omega

def join (sep : List Char) : List (List Char) → List Char
  | [] => []
  | [s] => s
  | s :: rest => s ++ sep ++ join sep rest

-- White space: the separators of Unicode and the control characters that break lines or columns.
def isBlank (c : Char) : Bool :=
  let n := c.toNat
  (9 ≤ n && n ≤ 13) || (28 ≤ n && n ≤ 32) || n == 0x85 || n == 0xA0 || n == 0x1680
    || (0x2000 ≤ n && n ≤ 0x200A) || n == 0x2028 || n == 0x2029 || n == 0x202F
    || n == 0x205F || n == 0x3000

def trimRightBy (p : Char → Bool) (s : List Char) : List Char :=
  (s.reverse.dropWhile p).reverse

-- Remove the characters of a class from both ends.
def trimBy (p : Char → Bool) (s : List Char) : List Char :=
  trimRightBy p (s.dropWhile p)

def strip (s : List Char) : List Char :=
  trimBy isBlank s

def stripOf (cs s : List Char) : List Char :=
  trimBy cs.contains s

def padLeft (width : Int) (s : String) : String :=
  String.ofList (List.replicate (width - s.length).toNat ' ') ++ s

end QuantumNode.Text

namespace QuantumNode.Text.Numeral

def isDigit (c : Char) : Bool :=
  '0' ≤ c && c ≤ '9'

variable (s : List Char)

def isDigits : Bool :=
  !s.isEmpty && s.all isDigit

def isNumeral : List Char → Bool
  | '-' :: rest => isDigits rest
  | s => isDigits s

def digitsValue : Nat :=
  s.foldl (fun n c => 10 * n + (c.toNat - '0'.toNat)) 0

def value : List Char → Int
  | '-' :: rest => - (digitsValue rest : Int)
  | s => digitsValue s

-- Two numerals around one point, of which at most one may be left out.
def isFraction : Bool :=
  match splitAt '.' s with
  | [whole, part] =>
    !(whole.isEmpty && part.isEmpty)
      && (whole.isEmpty || isNumeral whole) && (part.isEmpty || isNumeral part)
  | _ => false

-- First characters of the rows of ten decimal digits in the scripts of the world.
def zeros : List Nat :=
  [0x30, 0x660, 0x6F0, 0x7C0, 0x966, 0x9E6, 0xA66, 0xAE6, 0xB66, 0xBE6, 0xC66, 0xCE6,
   0xD66, 0xDE6, 0xE50, 0xED0, 0xF20, 0x1040, 0x1090, 0x17E0, 0x1810, 0x1946, 0x19D0,
   0x1A80, 0x1A90, 0x1B50, 0x1BB0, 0x1C40, 0x1C50, 0xA620, 0xA8D0, 0xA900, 0xA9D0,
   0xA9F0, 0xAA50, 0xABF0, 0xFF10, 0x104A0, 0x10D30, 0x11066, 0x110F0, 0x11136, 0x111D0,
   0x112F0, 0x11450, 0x114D0, 0x11650, 0x116C0, 0x11730, 0x118E0, 0x11950, 0x11C50,
   0x11D50, 0x11DA0, 0x16A60, 0x16AC0, 0x16B50, 0x1D7CE, 0x1D7D8, 0x1D7E2, 0x1D7EC,
   0x1D7F6, 0x1E140, 0x1E2F0, 0x1E950, 0x1FBF0]

def digitValue? (c : Char) : Option Nat :=
  (zeros.find? fun z => z ≤ c.toNat && c.toNat < z + 10).map fun z => c.toNat - z

-- Digits of any script, in which a single underscore may stand between two digits.
def lenientDigits? (acc : Option Nat) : List Char → Option Nat
  | [] => acc
  | '_' :: d :: rest =>
    match acc, digitValue? d with
    | some n, some k => lenientDigits? (some (10 * n + k)) rest
    | _, _ => none
  | d :: rest =>
    match digitValue? d with
    | some k => lenientDigits? (some (10 * acc.getD 0 + k)) rest
    | none => none

-- An integer with optional sign, surrounding white space and grouping underscores.
def lenient? : Option Int :=
  match strip s with
  | '-' :: rest => (lenientDigits? none rest).map fun n => - (n : Int)
  | '+' :: rest => (lenientDigits? none rest).map fun n => (n : Int)
  | rest => (lenientDigits? none rest).map fun n => (n : Int)

end QuantumNode.Text.Numeral

namespace QuantumNode.Text.Fixed

-- The number `num` times two to the power `exp`.
structure Binary where
  num : Int
  exp : Int
  deriving DecidableEq, Inhabited

def ofFloat? (x : Float) : Option Binary :=
  let bits := x.toBits.toNat
  let e : Nat := bits / Nat.pow 2 52 % 2048
  let m : Nat := bits % Nat.pow 2 52
  if e = 2047 then none
  else
    let n : Int := if e = 0 then m else m + Nat.pow 2 52
    let q : Int := if e = 0 then 1 else e
    some ⟨if bits / Nat.pow 2 63 = 1 then -n else n, q - 1075⟩

-- Divide and round to the nearest number, a half to the even one.
def roundDiv (num den : Nat) : Nat :=
  let q := num / den
  let r := num % den
  if 2 * r < den then q
  else if den < 2 * r then q + 1
  else if q % 2 = 0 then q else q + 1

variable (places : Nat)

-- A number of units in the last place, with the point set.
def placePoint (units : Nat) : List Char :=
  let digits := Nat.toDigits 10 units
  let filled := List.replicate (places + 1 - digits.length) '0' ++ digits
  let whole := filled.take (filled.length - places)
  let part := filled.drop (filled.length - places)
  if places = 0 then whole else whole ++ '.' :: part

-- How many units in the last place are nearest to a number.
def unitsOf (b : Binary) : Nat :=
  let scaled := b.num.natAbs * Nat.pow 10 places
  if 0 ≤ b.exp then scaled * Nat.pow 2 b.exp.toNat else roundDiv scaled (Nat.pow 2 b.exp.natAbs)

def text (x : Float) : String :=
  match ofFloat? x with
  | some b =>
    let sign := if x.toBits.toNat / Nat.pow 2 63 = 1 then "-" else ""
    sign ++ String.ofList (placePoint places (unitsOf places b))
  | none => if x.isNaN then "nan" else if x < 0 then "-inf" else "inf"

end QuantumNode.Text.Fixed

namespace QuantumNode.Text.Printable

set_option maxRecDepth 4000 in
/-
  How many characters in a row have a glyph of their own, how many after them have none, and so on
  in turn. Controls, format characters, separators other than the space, private areas and places
  without a character have none.
-/
def runs : List Nat :=
  [0,32,95,34,12,1,714,2,6,4,7,1,1,1,20,1,397,1,38,2,50,2,3,1,55,8,27,4,6,17,22,1,192,1,48,2,59,2,
  101,14,59,2,49,2,15,1,28,2,1,1,11,5,31,9,74,1,161,1,8,2,2,2,22,1,7,1,1,3,4,2,9,2,2,2,4,8,1,4,2,1,
  5,2,25,2,3,1,6,4,2,2,22,1,7,1,2,1,2,1,2,2,1,1,5,4,2,2,3,3,1,7,4,1,1,7,17,10,3,1,9,1,3,1,22,1,7,1,
  2,1,5,2,10,1,3,1,3,2,1,15,4,2,12,7,7,1,3,1,8,2,2,2,22,1,7,1,2,1,5,2,9,2,2,2,3,7,3,4,2,1,5,2,18,10,
  2,1,6,3,3,1,4,3,2,1,1,1,2,3,2,3,3,3,12,4,5,3,3,1,4,2,1,6,1,14,21,5,13,1,3,1,23,1,16,2,9,1,3,1,4,7,
  2,1,3,2,1,2,4,2,10,7,22,1,3,1,23,1,10,1,5,2,9,1,3,1,4,7,2,6,2,1,4,2,10,1,2,13,13,1,3,1,51,1,3,1,6,
  4,16,2,26,1,3,1,18,3,24,1,9,1,1,2,7,3,1,4,6,1,1,1,8,6,10,2,3,12,58,4,29,37,2,1,1,1,5,1,24,1,1,1,
  23,2,5,1,1,1,6,2,10,2,4,32,72,1,36,4,39,1,36,1,15,1,13,37,198,1,1,5,1,2,377,1,4,2,7,1,1,1,4,2,41,
  1,4,2,33,1,4,2,7,1,1,1,4,2,15,1,57,1,4,2,67,2,32,3,26,6,86,2,6,2,640,1,28,3,89,7,22,9,24,9,20,12,
  13,1,3,1,2,12,94,2,10,6,10,6,14,1,11,6,89,7,43,5,70,10,31,1,12,4,12,4,1,3,42,2,5,11,44,4,26,6,11,
  3,62,2,65,1,29,2,11,6,10,6,14,2,31,49,77,3,47,1,116,8,60,3,15,3,60,7,43,2,11,8,43,5,534,2,6,2,38,
  2,6,2,8,1,1,1,1,1,1,1,31,2,53,1,15,1,14,2,6,1,19,2,3,1,9,17,24,8,47,17,2,2,27,1,13,3,33,15,33,15,
  140,4,663,25,11,21,1812,2,32,1,349,5,45,1,1,5,1,2,56,7,2,14,24,9,7,1,7,1,7,1,7,1,7,1,7,1,7,1,7,1,
  126,34,26,1,89,12,214,26,12,5,63,1,86,2,103,5,43,1,94,1,84,12,47,1,29293,3,55,9,348,20,184,8,203,
  5,2,1,1,1,5,24,59,3,10,6,56,8,70,8,12,6,116,11,30,3,78,1,11,4,33,1,55,9,14,2,10,2,103,24,28,10,6,
  2,6,2,6,9,7,1,7,1,60,4,126,2,10,6,11172,12,23,4,49,8452,366,2,106,38,7,12,5,5,26,1,5,1,1,1,2,1,2,
  1,125,16,445,2,54,7,1,32,42,6,51,1,19,1,4,4,5,1,135,4,190,3,6,2,6,2,6,2,3,3,7,1,7,13,2,2,12,1,26,
  1,19,1,2,1,15,2,14,34,123,5,3,4,45,3,88,1,13,3,1,47,46,130,29,3,49,15,28,4,36,9,30,5,43,5,30,1,37,
  4,14,42,158,2,10,6,36,4,36,4,40,8,52,11,12,1,15,1,7,1,2,1,11,1,15,1,7,1,2,67,311,9,22,10,8,24,6,1,
  42,1,9,69,6,2,1,1,44,1,2,3,1,2,23,1,72,8,9,48,19,1,2,5,33,3,27,5,1,64,56,4,20,2,50,1,2,5,8,1,3,1,
  29,2,3,4,10,7,9,7,64,32,39,4,12,9,54,3,29,2,27,5,26,7,4,12,7,80,73,55,51,13,51,7,46,8,10,294,31,1,
  42,1,3,2,2,78,40,8,42,22,26,38,28,20,23,9,78,4,36,9,62,1,5,13,25,7,10,6,53,1,18,8,39,9,96,1,20,11,
  18,1,44,65,7,1,1,1,4,1,15,1,11,6,59,5,10,6,4,1,8,2,2,2,22,1,7,1,2,1,5,1,10,2,2,2,3,2,1,6,1,5,7,2,
  7,3,5,139,92,1,5,30,72,8,10,166,54,2,38,34,69,11,10,6,13,19,58,6,10,54,27,2,15,4,23,185,60,100,83,
  12,8,2,1,2,8,1,2,1,30,1,2,2,12,9,10,70,8,2,46,2,11,27,72,8,83,13,73,263,9,1,45,1,14,10,29,3,32,2,
  22,1,14,73,7,1,2,1,44,3,1,1,2,1,9,8,10,6,6,1,2,1,37,1,2,1,6,7,10,310,25,183,1,15,50,13,923,102,
  111,1,5,11,196,2636,99,13,1071,4049,583,8633,569,7,31,1,10,4,81,1,10,6,30,2,6,10,70,10,10,1,7,1,
  21,5,19,688,91,101,75,4,57,7,17,64,5,11,2,14,6136,8,1238,42,9,8935,4,1,7,1,2,1,291,45,3,17,4,8,
  396,2308,107,5,13,3,9,7,10,2,4,4704,46,2,23,9,116,60,246,10,39,2,74,8,112,21,70,154,20,12,87,9,25,
  135,85,1,71,1,2,2,1,2,2,2,4,1,12,1,1,1,7,1,65,1,4,2,8,1,7,1,28,1,4,1,5,1,1,3,7,1,340,2,292,2,702,
  15,5,1,15,1104,31,225,7,1,17,2,7,1,2,1,5,213,45,3,14,2,10,4,2,320,31,17,58,5,1,1248,7,1,4,1,2,1,
  15,1,197,2,16,41,76,4,10,4,2,785,68,76,61,194,4,1,27,1,2,1,1,2,1,1,10,1,4,1,1,1,1,6,1,4,1,1,1,1,1,
  1,3,1,2,1,1,2,1,1,1,1,1,1,1,1,1,1,2,1,1,2,4,1,7,1,4,1,4,1,1,1,10,1,17,5,3,1,5,1,17,52,2,270,44,4,
  100,12,15,2,15,1,15,1,37,10,174,56,29,13,44,4,9,7,2,14,6,154,984,5,16,3,13,3,116,12,89,7,12,4,1,
  15,12,4,56,8,10,6,40,8,30,2,2,78,340,12,14,2,5,3,5,3,7,9,29,3,11,5,6,10,10,6,8,8,7,9,147,1,55,37,
  10,1030,42720,32,4153,7,222,2,5762,14,7473,3103,542,1506,4939,716213,240,196112]

-- Whether the run in which a place is has glyphs, if the first run does or does not.
def inGlyphs : Bool → Nat → List Nat → Bool
  | shown, _, [] => shown
  | shown, n, run :: rest => if n < run then shown else inGlyphs (!shown) (n - run) rest

def isShown (c : Char) : Bool :=
  if c.toNat < 0x7F then 0x20 ≤ c.toNat
  else inGlyphs true c.toNat runs

end QuantumNode.Text.Printable

namespace QuantumNode.Text.Quoted

def hexDigits (width n : Nat) : List Char :=
  let digits := Nat.toDigits 16 n
  List.replicate (width - digits.length) '0' ++ digits

def escape (mark c : Char) : List Char :=
  if c = mark ∨ c = '\\' then ['\\', c]
  else if c = '\n' then ['\\', 'n']
  else if c = '\r' then ['\\', 'r']
  else if c = '\t' then ['\\', 't']
  else if Printable.isShown c then [c]
  else if c.toNat < 0x100 then '\\' :: 'x' :: hexDigits 2 c.toNat
  else if c.toNat < 0x10000 then '\\' :: 'u' :: hexDigits 4 c.toNat
  else '\\' :: 'U' :: hexDigits 8 c.toNat

-- Double quotes are used only for a text that has a single quote and no double quote.
def mark (s : List Char) : Char :=
  if s.contains '\'' && !s.contains '"' then '"' else '\''

def quote (s : String) : String :=
  let m := mark s.toList
  String.ofList (m :: s.toList.flatMap (escape m) ++ [m])

def list (ss : List String) : String :=
  "[" ++ ", ".intercalate (ss.map quote) ++ "]"

end QuantumNode.Text.Quoted

namespace QuantumNode.Text.Shortest

-- The number `mantissa * 2 ^ exponent`.
structure Binary where
  mantissa : Nat
  exponent : Int

def Binary.isNarrow (b : Binary) : Bool :=
  b.mantissa == Nat.pow 2 52 && -1074 < b.exponent

-- The number `digits * 10 ^ exponent`.
structure Decimal where
  digits : Nat
  exponent : Int

-- The numbers that are read as the given one lie between two bounds. All are fractions with one
-- denominator; the bounds belong to the interval if the mantissa is even.
structure Interval where
  low : Nat
  value : Nat
  high : Nat
  denominator : Nat
  closed : Bool

def Binary.interval (b : Binary) : Interval :=
  let scale := Nat.pow 2 (b.exponent - 2).toNat
  { low := (4 * b.mantissa - (if b.isNarrow then 1 else 2)) * scale
    value := 4 * b.mantissa * scale
    high := (4 * b.mantissa + 2) * scale
    denominator := Nat.pow 2 (2 - b.exponent).toNat
    closed := b.mantissa % 2 == 0 }

variable (i : Interval)

def Interval.has (d : Decimal) : Bool :=
  let num := d.digits * Nat.pow 10 d.exponent.toNat * i.denominator
  let den := Nat.pow 10 (-d.exponent).toNat
  if i.closed then i.low * den ≤ num && num ≤ i.high * den
  else i.low * den < num && num < i.high * den

-- The value of an interval in units of a power of ten, rounded down.
def Interval.floor (exponent : Int) : Nat :=
  (i.value * Nat.pow 10 (-exponent).toNat) / (i.denominator * Nat.pow 10 exponent.toNat)

def Interval.isAboveHalf (exponent : Int) : Bool :=
  let num := i.value * Nat.pow 10 (-exponent).toNat
  let den := i.denominator * Nat.pow 10 exponent.toNat
  den < 2 * (num % den) || (den == 2 * (num % den) && (num / den) % 2 == 1)

def Interval.at? (exponent : Int) : Option Decimal :=
  let down : Decimal := ⟨i.floor exponent, exponent⟩
  let up : Decimal := ⟨i.floor exponent + 1, exponent⟩
  match i.has down, i.has up with
  | true, true => some (if i.isAboveHalf exponent then up else down)
  | true, false => some down
  | false, true => some up
  | false, false => none

-- The number of decimal digits before the point, which may be negative.
def Interval.magnitude : Int :=
  if i.denominator ≤ i.value then ((toString (i.value / i.denominator)).length : Int)
  else
    -- the number of zeros that follow the point
    let inverse := (i.denominator + i.value - 1) / i.value
    let guess := (toString inverse).length - 1
    if i.denominator ≤ i.value * Nat.pow 10 guess then 1 - (guess : Int) else - (guess : Int)

def stripZeros : Nat → Decimal → Decimal
  | 0, d => d
  | fuel + 1, d =>
    if d.digits ≠ 0 && d.digits % 10 == 0 then stripZeros fuel ⟨d.digits / 10, d.exponent + 1⟩
    else d

def maxDigits : Nat := 17

def decimal (b : Binary) : Decimal :=
  let i := b.interval
  let m := i.magnitude
  let found := (List.range maxDigits).findSome? fun n => i.at? (m - Int.ofNat (n + 1))
  stripZeros maxDigits (found.getD ⟨0, 0⟩)

def leastPoint : Int := -4

def greatestPoint : Int := 16

def positional (digits : String) (point : Int) : String :=
  if point ≤ 0 then "0." ++ String.ofList (List.replicate (-point).toNat '0') ++ digits
  else if (digits.length : Int) ≤ point then
    digits ++ String.ofList (List.replicate (point - digits.length).toNat '0') ++ ".0"
  else
    String.ofList (digits.toList.take point.toNat) ++ "."
      ++ String.ofList (digits.toList.drop point.toNat)

def scientific (digits : String) (point : Int) : String :=
  let e := point - 1
  let size := toString e.natAbs
  let tail := String.ofList (digits.toList.drop 1)
  String.ofList (digits.toList.take 1) ++ (if tail.isEmpty then "" else "." ++ tail)
    ++ (if e < 0 then "e-" else "e+") ++ (if size.length < 2 then "0" ++ size else size)

def decimalText (d : Decimal) : String :=
  let digits := toString d.digits
  let point := d.exponent + digits.length
  if leastPoint < point && point ≤ greatestPoint then positional digits point
  else scientific digits point

def text (x : Float) : String :=
  let bits := x.toBits.toNat
  let field := bits / Nat.pow 2 52 % 2048
  let fraction := bits % Nat.pow 2 52
  let sign := if bits / Nat.pow 2 63 = 1 then "-" else ""
  if field = 2047 then if fraction = 0 then sign ++ "inf" else "nan"
  else if field = 0 && fraction = 0 then sign ++ "0.0"
  else
    let b : Binary :=
      if field = 0 then ⟨fraction, -1074⟩ else ⟨fraction + Nat.pow 2 52, Int.ofNat field - 1075⟩
    sign ++ decimalText (decimal b)

end QuantumNode.Text.Shortest
