import QuantumNode.Instr

/-
  The matrices of gates and of rotations about any axis, and matrices that are equal up to a phase.
  Angles are fractions of pi with a power of two below. Gates are defined for any numbers that
  matrices can be made of: rounded ones are computed, exact ones are reasoned about.
-/

namespace QuantumNode

-- The angle `num` times pi over two to the power `exp`.
structure Angle where
  num : Int
  exp : Int
  deriving DecidableEq

namespace Angle

def tooLarge : Nat := Nat.pow 2 1024 - Nat.pow 2 970

def check (a : Angle) : Checked Unit := do
  if tooLarge ≤ a.num.natAbs then throw (.unexplained .overflow)
  if 1024 ≤ a.exp then throw (.unexplained .overflow)
  if a.exp < -1074 then throw (.unexplained .divisionByZero)

def pi : Float := Float.ofBits 0x400921FB54442D18

def radians (a : Angle) : Float :=
  Float.ofInt a.num * pi / Float.scaleB 1.0 a.exp

end Angle

-- Numbers with an imaginary unit, the root of one half, and the cosine and sine of half an angle.
class Amplitude (α : Type) where
  zero : α
  one : α
  imag : α
  rootHalf : α
  add : α → α → α
  mul : α → α → α
  neg : α → α
  cosHalf : Angle → α
  sinHalf : Angle → α

structure Rounded where
  re : Float
  im : Float
  deriving Inhabited

namespace Rounded
variable (x : Float) (a : Rounded) (b : Rounded)

def ofFloat : Rounded :=
  ⟨x, 0⟩

def add : Rounded :=
  ⟨a.re + b.re, a.im + b.im⟩

def sub : Rounded :=
  ⟨a.re - b.re, a.im - b.im⟩

def mul : Rounded :=
  ⟨a.re * b.re - a.im * b.im, a.re * b.im + a.im * b.re⟩

def neg : Rounded :=
  ⟨-a.re, -a.im⟩

def scale : Rounded :=
  ⟨x * a.re, x * a.im⟩

def abs : Float :=
  Float.sqrt (a.re * a.re + a.im * a.im)

def div : Rounded :=
  let d := b.re * b.re + b.im * b.im
  ⟨(a.re * b.re + a.im * b.im) / d, (a.im * b.re - a.re * b.im) / d⟩

def phase : Float :=
  Float.atan2 a.im a.re

def cis : Rounded :=
  ⟨Float.cos x, Float.sin x⟩

def isZero : Bool :=
  a.re == 0 && a.im == 0

def lt : Bool :=
  a.re < b.re || (a.re == b.re && a.im < b.im)

def signBit : Bool :=
  x.toBits.toNat / Nat.pow 2 63 = 1

def withSign (size sign : Float) : Float :=
  if signBit sign then -size.abs else size.abs

def sqrt : Rounded :=
  if a.isZero then ⟨0, a.im⟩
  else
    let t := Float.sqrt ((a.re.abs + a.abs) / 2)
    if a.re ≥ 0 then ⟨t, a.im / (2 * t)⟩
    else ⟨a.im.abs / (2 * t), withSign t a.im⟩

def acos : Rounded :=
  let below := sqrt ⟨1 - a.re, -a.im⟩
  let above := sqrt ⟨1 + a.re, a.im⟩
  ⟨2 * Float.atan2 below.re above.re, Float.asinh (above.re * below.im - above.im * below.re)⟩

def sin : Rounded :=
  ⟨Float.sin a.re * Float.cosh a.im, Float.cos a.re * Float.sinh a.im⟩

instance : Amplitude Rounded where
  zero := ⟨0, 0⟩
  one := ⟨1, 0⟩
  imag := ⟨0, 1⟩
  rootHalf := ⟨1 / Float.sqrt 2, 0⟩
  add := add
  mul := mul
  neg := neg
  cosHalf a := ofFloat (Float.cos (a.radians / 2))
  sinHalf a := ofFloat (Float.sin (a.radians / 2))

end Rounded

abbrev Square (n : Nat) (α : Type) := Fin n → Fin n → α

namespace Square

def rows {n : Nat} {α : Type} (m : Square n α) : List (List α) :=
  (List.finRange n).map fun i => (List.finRange n).map fun j => m i j

end Square

namespace Gate
variable {α : Type} [Amplitude α]
open Amplitude

def square2 (a b c d : α) : Square 2 α :=
  fun i j => if i = 0 then (if j = 0 then a else b) else (if j = 0 then c else d)

-- The rotation with cosine `c` of half its angle and sine times axis `(x, y, z)`.
def rotor (c x y z : α) : Square 2 α :=
  square2 (add c (neg (mul imag z))) (add (neg (mul imag x)) (neg y))
    (add (neg (mul imag x)) y) (add c (mul imag z))

inductive Axis
  | x
  | y
  | z
  deriving DecidableEq

def rotation (axis : Axis) (angle : Angle) : Square 2 α :=
  match axis with
  | .x => rotor (cosHalf angle) (sinHalf angle) zero zero
  | .y => rotor (cosHalf angle) zero (sinHalf angle) zero
  | .z => rotor (cosHalf angle) zero zero (sinHalf angle)

def fixed? : Op → Option (Square 2 α)
  | .x => some (square2 zero one one zero)
  | .y => some (square2 zero (neg imag) imag zero)
  | .z => some (square2 one zero zero (neg one))
  | .h => some (square2 rootHalf rootHalf rootHalf (neg rootHalf))
  | .k => some (square2 rootHalf (neg (mul imag rootHalf)) (mul imag rootHalf) (neg rootHalf))
  | .s => some (square2 one zero zero imag)
  | .t => some (square2 one zero zero (add rootHalf (mul imag rootHalf)))
  | _ => none

def high (i : Fin 4) : Fin 2 :=
  if i.val < 2 then 0 else 1

def low (i : Fin 4) : Fin 2 :=
  if i.val % 2 = 0 then 0 else 1

-- One matrix if the first qubit is zero, and another one if it is one.
def either (a b : Square 2 α) : Square 4 α :=
  fun i j =>
    if high i = high j then (if high i = 0 then a (low i) (low j) else b (low i) (low j))
    else zero

def exchange : Square 4 α :=
  fun i j => if high i = low j ∧ low i = high j then one else zero

def identity : Square 2 α :=
  square2 one zero zero one

def fixedPair? : Op → Option (Square 4 α)
  | .cnot => some (either identity (square2 zero one one zero))
  | .cphase => some (either identity (square2 one zero zero (neg one)))
  | .mov => some exchange
  | _ => none

def fixedTarget? : Op → Option (Square 2 α)
  | .cnot => some (square2 zero one one zero)
  | .cphase => some (square2 one zero zero (neg one))
  | _ => none

def controlled (axis : Axis) (angle : Angle) : Square 4 α :=
  either (rotation axis angle) (rotation axis ⟨-angle.num, angle.exp⟩)

def axis? : Op → Option Axis
  | .rotX => some .x
  | .rotY => some .y
  | .rotZ => some .z
  | _ => none

-- The axis of a controlled rotation; both turn about the same one.
def controlledAxis? : Op → Option Axis
  | .crotX => some .x
  | .crotY => some .x
  | _ => none

inductive Sized (α : Type)
  | one (m : Square 2 α)
  | two (m : Square 4 α)

def Sized.rows : Sized α → List (List α)
  | one m => m.rows
  | two m => m.rows

def angleOf (num exp : Operand) : Checked Angle :=
  match num.number?, exp.number? with
  | some n, some d => do
    let angle : Angle := ⟨n, d⟩
    angle.check
    return angle
  | _, _ => .error .noAttribute

def matrix (op : Op) (operands : List Operand) : Checked (Sized α × Option (Square 2 α)) := do
  match fixed? op, fixedPair? op with
  | some m, _ => return (.one m, none)
  | none, some m => return (.two m, fixedTarget? op)
  | none, none =>
    match axis? op, controlledAxis? op, operands with
    | some axis, _, [_, n, d] => return (.one (rotation axis (← angleOf n d)), none)
    | _, some axis, [_, _, n, d] =>
      let angle ← angleOf n d
      return (.two (controlled axis angle), some (rotation axis angle))
    | _, _, _ => throw .noAttribute

end Gate

abbrev RoundedGrid := List (List Rounded)

namespace Rotation
variable (axis : List Float) (m : RoundedGrid)

def norm : Float :=
  Float.sqrt (axis.foldl (fun s a => s + a * a) 0)

def about (angle : Float) : Checked (Square 2 Rounded) :=
  let length := norm axis
  if length == 0 then .error (.mapping .noAxis)
  else
    let s := Float.sin (angle / 2)
    let part (i : Nat) : Rounded := .ofFloat (s * (axis[i]?.getD 0) / length)
    .ok (Gate.rotor (.ofFloat (Float.cos (angle / 2))) (part 0) (part 1) (part 2))

def controlledAbout (angle : Float) : Checked (Square 4 Rounded) := do
  return Gate.either (← about axis angle) (← about axis (-angle))

def vector : Gate.Axis → List Float
  | .x => [1, 0, 0]
  | .y => [0, 1, 0]
  | .z => [0, 0, 1]

def ofOp (op : Op) (angle : Option Float) : Checked RoundedGrid :=
  match Gate.fixed? op, Gate.fixedPair? op, Gate.axis? op with
  | some m, _, _ => .ok (Square.rows m)
  | none, some m, _ =>
    if op = .mov then .error (.mapping (.notAGate op.title)) else .ok (Square.rows m)
  | none, none, some axis =>
    match angle with
    | none => .error (.mapping .noAngle)
    | some a => do return Square.rows (← about (vector axis) a)
  | none, none, none => .error (.mapping (.notAGate op.title))

def close (a b : Rounded) : Bool :=
  (a.sub b).abs ≤ 1e-8 + 1e-5 * b.abs

def width : Nat :=
  (m.head?.getD []).length

def stretches (a b : Nat) : Bool :=
  a = b || a = 1 || b = 1

def stretched (i j : Nat) : Rounded :=
  let row := if m.length = 1 then 0 else i
  let column := if width m = 1 then 0 else j
  ((m[row]?.getD [])[column]?).getD default

def closeGrid (a b : RoundedGrid) : Checked Bool :=
  if stretches a.length b.length && stretches (width a) (width b) then
    let height := if a.length = 1 then b.length else a.length
    let columns := if width a = 1 then width b else width a
    .ok ((List.range height).all fun i => (List.range columns).all fun j =>
      close (stretched a i j) (stretched b i j))
  else .error .malformed

def places : List (Nat × Nat × Rounded) :=
  m.zipIdx.flatMap fun (row, i) => row.zipIdx.map fun (a, j) => (i, j, a)

def firstNonZero? : Option (Nat × Nat × Rounded) :=
  (places m).find? fun (_, _, a) => !a.isZero

def equalTo (first : RoundedGrid) (i j : Nat) (a : Rounded) (m : RoundedGrid) : Checked Bool :=
  match (m[i]?).bind fun row => row[j]? with
  | none => .error .noIndex
  | some b =>
    if b.isZero then .ok false
    else
      let turn := Rounded.cis (a.div b).phase
      closeGrid first (m.map fun row => row.map turn.mul)

def allEqualTo (first : RoundedGrid) (i j : Nat) (a : Rounded) : List RoundedGrid → Checked Bool
  | [] => .ok true
  | m :: rest => do
    if ← equalTo first i j a m then allEqualTo first i j a rest else return false

def equalUpToPhase : List RoundedGrid → Checked Bool
  | [] => .ok true
  | [_] => .ok true
  | first :: rest =>
    match firstNonZero? first with
    | none => .ok (rest.all fun m => (places m).all fun (_, _, a) => close a default)
    | some (i, j, a) => allEqualTo first i j a rest

end Rotation

end QuantumNode
