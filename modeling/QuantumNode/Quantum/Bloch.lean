import QuantumNode.Quantum.Rotation

/-
  The coordinates of a single-qubit state in the Bloch sphere.
-/

namespace QuantumNode.Bloch

-- A density matrix, and whether its entries were given as real numbers.
structure State where
  isReal : Bool
  m00 : Rounded
  m01 : Rounded
  m10 : Rounded

-- The angle whose cosine is a number; real ones outside the range have none.
def arccos (isReal : Bool) (a : Rounded) : Rounded :=
  if isReal then .ofFloat (Float.acos a.re) else a.acos

def sine (isReal : Bool) (a : Rounded) : Rounded :=
  if isReal then .ofFloat (Float.sin a.re) else a.sin

def equalsReal (a : Rounded) (x : Float) : Bool :=
  a.re == x && a.im == 0

def divideBy (a : Rounded) (x : Float) : Rounded :=
  ⟨a.re / x, a.im / x⟩

def coordinates (s : State) : Checked (List Rounded) := do
  let ax := s.m01.add s.m10
  let difference := s.m10.sub s.m01
  let ay : Rounded := ⟨difference.im, -difference.re⟩
  let az := (s.m00.scale 2).sub ⟨1, 0⟩
  let r := Float.sqrt (ax.abs * ax.abs + ay.abs * ay.abs + az.abs * az.abs)
  if !(r < 1.001) then throw (.mapping .notNormalized)
  if r == 0 then return [⟨0, 0⟩, ⟨0, 0⟩, ⟨0, 0⟩]
  let radius := Rounded.ofFloat r
  let theta := arccos s.isReal (divideBy az r)
  if equalsReal theta 0 || equalsReal theta Angle.pi then return [theta, ⟨0, 0⟩, radius]
  let phi := arccos s.isReal ((divideBy ax r).div (sine s.isReal theta))
  let phi := if ay.lt ⟨0, 0⟩ then phi.add (.ofFloat Angle.pi) else phi
  return [theta, phi, radius]

end QuantumNode.Bloch
