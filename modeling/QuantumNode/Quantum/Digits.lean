import QuantumNode.Quantum.Rotation

/-
  How an angle is written as a sum of angles whose numerators fit into one byte.
-/

namespace QuantumNode.Digits
open Text.Fixed

def maxNumerator : Nat := 255

def exponentLimit : Int := 32

/-
  Numbers that angles are taken apart in: they are compared, multiplied by a power of two and
  rounded down, and freed from a multiple of a power of two. Binary ones are computed with, and all
  fractions are reasoned about.
-/
class Fraction (α : Type) where
  greater : α → α → Bool
  isZero : α → Bool
  floorScaled : α → Int → Int
  subtract : α → Int → Int → α

open Fraction

instance : Fraction Binary where
  greater a b :=
    let e := if a.exp ≤ b.exp then a.exp else b.exp
    b.num * Nat.pow 2 (b.exp - e).toNat < a.num * Nat.pow 2 (a.exp - e).toNat
  isZero a := a.num = 0
  floorScaled a d :=
    let e := a.exp + d
    if 0 ≤ e then a.num * Nat.pow 2 e.toNat else a.num.fdiv (Nat.pow 2 e.natAbs)
  subtract a n d :=
    let e := if a.exp ≤ -d then a.exp else -d
    ⟨a.num * Nat.pow 2 (a.exp - e).toNat - n * Nat.pow 2 (-d - e).toNat, e⟩

variable {α : Type} [Fraction α]

-- Take away the largest fitting angle until what is left is at most the tolerance.
def split (exponent : α → Int) (tol : α) : Nat → α → Checked (List Angle)
  | 0, _ => .ok []
  | fuel + 1, rest =>
    if greater rest tol then
      if isZero rest then .error (.unexplained .divisionByZero)
      else do
        let d := exponent rest
        let n := floorScaled rest d
        demand (n ≤ maxNumerator) (.mapping .numeratorTooLarge)
        return ⟨n, d⟩ :: (← split exponent tol fuel (subtract rest n d))
    else .ok []

def simplify : Nat → Angle → Angle
  | 0, a => a
  | fuel + 1, a =>
    if a.num % 2 = 0 then simplify fuel ⟨a.num / 2, a.exp - 1⟩ else a

-- Angles in lowest terms, without those that are too small.
def clean (as : List Angle) : List Angle :=
  (as.map (simplify 8)).filter fun a => a.exp < exponentLimit

def toFloat (b : Binary) : Float :=
  Float.scaleB (Float.ofInt b.num) b.exp

def roundedExponent (rest : Binary) : Int :=
  let x := Float.floor (Float.log2 (Float.ofNat maxNumerator / toFloat rest))
  if x < 0 then - Int.ofNat (-x).toUInt64.toNat else Int.ofNat x.toUInt64.toNat

-- The remainder towards zero of two binary numbers.
def remainder (a b : Binary) : Binary :=
  let e := if a.exp ≤ b.exp then a.exp else b.exp
  ⟨Int.tmod (a.num * Nat.pow 2 (a.exp - e).toNat) (b.num * Nat.pow 2 (b.exp - e).toNat), e⟩

def wrap (x turn : Float) : Float :=
  match ofFloat? x, ofFloat? turn with
  | some a, some b =>
    let r := remainder a b
    if r.num < 0 then toFloat r + turn else toFloat r
  | _, _ => 0.0 / 0.0

def stepLimit : Nat := 200

def digits (exponent : α → Int) (tol rest : α) : Checked (List Angle) := do
  return clean (← split exponent tol stepLimit rest)

def ofRadians (angle tol : Float) : Checked (List Angle) :=
  let rest := wrap angle (2 * Angle.pi) / Angle.pi
  match ofFloat? rest, ofFloat? tol with
  | some r, some t => digits roundedExponent t r
  | _, _ => .ok []

def defaultTolerance : Float := 1e-4

end QuantumNode.Digits
