import Mathlib
import QuantumNode.Quantum.Rotation

/-
  Gates as linear operators on the joint states of any number of qubits, exact matrices of gates,
  where amplitudes are complex numbers and the angle of a rotation is a multiple of pi, and the
  operator of a program without branches: the product of the exact gates of its instructions, each
  on the qubits whose addresses its registers hold.
-/

namespace QuantumNode.Joint
open Matrix Kronecker Finset LinearMap
variable {Q : Type} [DecidableEq Q] {r : Q} (q : Q) (U : Matrix (Fin 2) (Fin 2) ℂ)

-- A joint state has an amplitude for every way to give each qubit a bit.
abbrev State (Q : Type) := (Q → Fin 2) → ℂ

abbrev Operator (Q : Type) := Module.End ℂ (State Q)

abbrev Gate4 := Matrix (Fin 2 × Fin 2) (Fin 2 × Fin 2) ℂ

def on : Operator Q where
  toFun ψ b := ∑ v, U (b q) v * ψ (Function.update b q v)
  map_add' ψ φ := by
    funext b
    simp only [Pi.add_apply, mul_add, sum_add_distrib]
  map_smul' c ψ := by
    funext b
    simp only [Pi.smul_apply, smul_eq_mul, RingHom.id_apply, mul_sum]
    exact sum_congr rfl fun v _ => by ring

theorem on_apply (ψ : State Q) (b : Q → Fin 2) :
    on q U ψ b = ∑ v, U (b q) v * ψ (Function.update b q v) :=
  rfl

theorem on_mul (V : Matrix (Fin 2) (Fin 2) ℂ) : on q U * on q V = on q (U * V) := by
  refine ext fun ψ => funext fun b => ?_
  simp only [Module.End.mul_apply, on_apply, Function.update_self, Function.update_idem,
    Matrix.mul_apply, mul_sum, sum_mul]
  rw [sum_comm]
  exact sum_congr rfl fun v _ => sum_congr rfl fun u _ => by ring

theorem on_smul (c : ℂ) (U : Matrix (Fin 2) (Fin 2) ℂ) : on q (c • U) = c • on q U := by
  refine ext fun ψ => funext fun b => ?_
  simp only [LinearMap.smul_apply, Pi.smul_apply, smul_eq_mul, on_apply, Matrix.smul_apply,
    Finset.mul_sum]
  exact Finset.sum_congr rfl fun v _ => by ring

def put (r : Q) (b : Q → Fin 2) (p : Fin 2 × Fin 2) : Q → Fin 2 :=
  Function.update (Function.update b q p.1) r p.2

theorem put_bits {q : Q} (hApart : q ≠ r) (b : Q → Fin 2) (p : Fin 2 × Fin 2) :
    (put q r b p q, put q r b p r) = p := by
  simp [put, hApart]

theorem put_put {q : Q} (hApart : q ≠ r) (b : Q → Fin 2) (p p' : Fin 2 × Fin 2) :
    put q r (put q r b p) p' = put q r b p' := by
  funext x
  by_cases hSecond : x = r
  · simp [put, hSecond]
  · by_cases hFirst : x = q
    · simp [put, hFirst, hApart]
    · simp [put, hFirst, hSecond]

def onPair (r : Q) (M : Gate4) : Operator Q where
  toFun ψ b := ∑ p, M (b q, b r) p * ψ (put q r b p)
  map_add' ψ φ := by
    funext b
    simp only [Pi.add_apply, mul_add, sum_add_distrib]
  map_smul' c ψ := by
    funext b
    simp only [Pi.smul_apply, smul_eq_mul, RingHom.id_apply, mul_sum]
    exact sum_congr rfl fun v _ => by ring

theorem onPair_apply (r : Q) (M : Gate4) (ψ : State Q) (b : Q → Fin 2) :
    onPair q r M ψ b = ∑ p, M (b q, b r) p * ψ (put q r b p) :=
  rfl

theorem onPair_mul {q : Q} (hApart : q ≠ r) (M N : Gate4) :
    onPair q r M * onPair q r N = onPair q r (M * N) := by
  refine ext fun ψ => funext fun b => ?_
  simp only [Module.End.mul_apply, onPair_apply, put_bits hApart, put_put hApart,
    Matrix.mul_apply, mul_sum, sum_mul]
  rw [sum_comm]
  exact sum_congr rfl fun v _ => sum_congr rfl fun u _ => by ring

theorem onPair_smul (r : Q) (c : ℂ) (M : Gate4) : onPair q r (c • M) = c • onPair q r M := by
  refine ext fun ψ => funext fun b => ?_
  simp only [LinearMap.smul_apply, Pi.smul_apply, smul_eq_mul, onPair_apply, Matrix.smul_apply,
    Finset.mul_sum]
  exact Finset.sum_congr rfl fun v _ => by ring

theorem on_left {q : Q} (hApart : q ≠ r) (U : Matrix (Fin 2) (Fin 2) ℂ) :
    on q U = onPair q r (U ⊗ₖ 1) := by
  refine ext fun ψ => funext fun b => ?_
  rw [on_apply, onPair_apply, Fintype.sum_prod_type]
  refine sum_congr rfl fun u _ => ?_
  rw [sum_eq_single (b r)]
  · have hSame : put q r b (u, b r) = Function.update b q u := by
      refine Function.update_eq_self_iff.mpr ?_
      exact (Function.update_of_ne hApart.symm u b).symm
    simp [hSame]
  · intro v _ hOther
    simp [Matrix.one_apply_ne hOther.symm]
  · exact fun hAbsent => absurd (mem_univ _) hAbsent

theorem on_right {q : Q} (V : Matrix (Fin 2) (Fin 2) ℂ) : on r V = onPair q r (1 ⊗ₖ V) := by
  refine ext fun ψ => funext fun b => ?_
  rw [on_apply, onPair_apply, Fintype.sum_prod_type]
  refine ((sum_eq_single (b q) ?_ ?_).trans ?_).symm
  · intro u _ hOther
    simp [Matrix.one_apply_ne hOther.symm]
  · exact fun hAbsent => absurd (mem_univ _) hAbsent
  · simp [put]

-- The order of two qubits is the order of the bits in a matrix.
theorem onPair_swap {q : Q} (hApart : q ≠ r) (M : Gate4) :
    onPair r q (M.submatrix Prod.swap Prod.swap) = onPair q r M := by
  refine ext fun ψ => funext fun b => ?_
  rw [onPair_apply, onPair_apply]
  refine Fintype.sum_equiv (Equiv.prodComm _ _) _ _ fun p => ?_
  have hPut : put r q b p = put q r b p.swap := by exact Function.update_comm hApart.symm _ _ _
  rw [hPut]
  rfl

def exchange : Gate4 := fun p p' => if p = p'.swap then 1 else 0

theorem onPair_exchange (r : Q) (ψ : State Q) (b : Q → Fin 2) :
    onPair q r exchange ψ b = ψ (put q r b (b r, b q)) := by
  rw [onPair_apply, sum_eq_single (b r, b q)]
  · simp [exchange]
  · intro p _ hOther
    have hNot : (b q, b r) ≠ p.swap := by
      intro hSame
      exact hOther (by rw [← Prod.swap_swap p, ← hSame]; rfl)
    simp [exchange, hNot]
  · exact fun hAbsent => absurd (mem_univ _) hAbsent

-- A gate between two exchanges acts on the qubit that was exchanged for its first one.
theorem exchange_conj {e c t : Q} (hFirst : e ≠ c) (hSecond : e ≠ t) (hThird : c ≠ t) (M : Gate4) :
    onPair e c exchange * onPair e t M * onPair e c exchange = onPair c t M := by
  refine ext fun ψ => funext fun b => ?_
  rw [Module.End.mul_apply, Module.End.mul_apply, onPair_exchange, onPair_apply, onPair_apply]
  simp only [onPair_exchange]
  have hBits : (put e c b (b c, b e) e, put e c b (b c, b e) t) = (b c, b t) := by
    simp [put, hFirst, hSecond.symm, hThird.symm]
  refine sum_congr rfl fun p _ => ?_
  congr 2
  -- The two exchanges cancel away from the qubits that the gate acts on.
  funext q
  by_cases hC : q = c
  · subst hC
    simp [put, hSecond, hThird]
  · by_cases hE : q = e
    · subst hE
      simp [put, hFirst, hFirst.symm, hSecond, hThird]
    · by_cases hT : q = t
      · subst hT
        simp [put, hC, hE]
      · simp [put, hC, hE, hT]

end QuantumNode.Joint

namespace QuantumNode
open Real Gate Matrix

-- Two values are equal up to a factor on the unit circle.
def SamePhase {M : Type} [SMul ℂ M] (V U : M) : Prop := ∃ c : ℂ, ‖c‖ = 1 ∧ V = c • U

---- Exact amplitudes

-- Complex numbers are the exact amplitudes.
noncomputable instance : Amplitude ℂ where
  zero := 0
  one := 1
  imag := Complex.I
  rootHalf := ((√2 / 2 : ℝ) : ℂ)
  add := fun a b => a + b
  mul := fun a b => a * b
  neg := fun a => -a
  cosHalf a := ((cos (a.num * π / 2 ^ a.exp / 2) : ℝ) : ℂ)
  sinHalf a := ((sin (a.num * π / 2 ^ a.exp / 2) : ℝ) : ℂ)

namespace Exact
open Complex (I)

abbrev Gate2 := Matrix (Fin 2) (Fin 2) ℂ

noncomputable def fixed? (op : Op) : Option Gate2 := (Gate.fixed? op : Option (Square 2 ℂ))

variable (axis : Axis) (a : Angle) (x : ℝ)

noncomputable def rotation : Gate2 := (Gate.rotation axis a : Square 2 ℂ)

noncomputable def half : ℝ := a.num * π / 2 ^ a.exp / 2

-- The rotation about an axis by twice an angle.
noncomputable def turn : Gate2 := match axis with
  | .x => !![(cos x : ℂ), -I * sin x; -I * sin x, cos x]
  | .y => !![(cos x : ℂ), -sin x; sin x, cos x]
  | .z => !![(cos x : ℂ) - I * sin x, 0; 0, cos x + I * sin x]

theorem rotation_eq : rotation axis a = turn axis (half a) := by
  ext i j
  cases axis <;> fin_cases i <;> fin_cases j <;>
    simp [rotation, Gate.rotation, Gate.rotor, Gate.square2, Amplitude.cosHalf, Amplitude.sinHalf,
      Amplitude.add, Amplitude.neg, Amplitude.mul, Amplitude.imag, Amplitude.zero, turn, half,
      sub_eq_add_neg]

---- Multiples of a sixteenth of pi

theorem half_sixteenths (n : Int) : half ⟨n, 4⟩ = n * π / 32 := by
  simp only [half]
  ring

-- Scaling a numerator and the power of two below it keeps an angle.
theorem half_scale (n d : Int) (k : Nat) : half ⟨n * (Nat.pow 2 k : Nat), d + k⟩ = half ⟨n, d⟩ := by
  have hTwo : (2 : ℝ) ≠ 0 := by norm_num
  simp only [half, zpow_add₀ hTwo, zpow_natCast, Nat.pow_eq]
  push_cast
  field_simp

theorem cos_three_quarters : cos (3 * π / 4) = -(√2 / 2) := by
  rw [show 3 * π / 4 = π - π / 4 by ring, cos_pi_sub, cos_pi_div_four]

theorem sin_three_quarters : sin (3 * π / 4) = √2 / 2 := by
  rw [show 3 * π / 4 = π - π / 4 by ring, sin_pi_sub, sin_pi_div_four]

noncomputable def root : ℂ := ((√2 / 2 : ℝ) : ℂ)

theorem root_mul_root : root * root = 1 / 2 := by
  have hReal : (√2 / 2 : ℝ) * (√2 / 2) = 1 / 2 := by
    have hSquare : √2 * √2 = 2 := mul_self_sqrt (by norm_num)
    linear_combination hSquare / 4
  rw [root, ← Complex.ofReal_mul, hReal]
  norm_num

theorem normSq_root : Complex.normSq root = 1 / 2 := by
  rw [root, Complex.normSq_ofReal]
  have hSquare : √2 * √2 = 2 := mul_self_sqrt (by norm_num)
  linear_combination hSquare / 4

theorem half_8 : half ⟨8, 4⟩ = π / 4 := by
  rw [half_sixteenths]
  ring

theorem half_16 : half ⟨16, 4⟩ = π / 2 := by
  rw [half_sixteenths]
  ring

theorem half_24 : half ⟨24, 4⟩ = 3 * π / 4 := by
  rw [half_sixteenths]
  ring

theorem half_28 : half ⟨28, 4⟩ = 7 * π / 8 := by
  rw [half_sixteenths]
  ring

---- Matrices by their entries

theorem square2_eq (a b c d : ℂ) : (square2 a b c d : Square 2 ℂ) = !![a, b; c, d] := by
  funext i j
  fin_cases i <;> fin_cases j <;> rfl

theorem smul_entries (k a b c d : ℂ) : k • !![a, b; c, d] = !![k * a, k * b; k * c, k * d] := by
  ext i j
  fin_cases i <;> fin_cases j <;> rfl

theorem entries_congr {a b c d a' b' c' d' : ℂ} (hA : a = a') (hB : b = b') (hC : c = c')
    (hD : d = d') : !![a, b; c, d] = !![a', b'; c', d'] := by
  rw [hA, hB, hC, hD]

theorem turn_x_quarter : turn .x (π / 4) = !![root, -I * root; -I * root, root] := by
  rw [turn, cos_pi_div_four, sin_pi_div_four]
  rfl

theorem turn_x_three_quarters : turn .x (3 * π / 4) = !![-root, -I * root; -I * root, -root] := by
  rw [turn, cos_three_quarters, sin_three_quarters, Complex.ofReal_neg]
  rfl

theorem turn_x_half : turn .x (π / 2) = !![0, -I; -I, 0] := by
  rw [turn]
  simp

theorem turn_y_quarter : turn .y (π / 4) = !![root, -root; root, root] := by
  rw [turn, cos_pi_div_four, sin_pi_div_four]
  rfl

theorem turn_y_half : turn .y (π / 2) = !![0, -1; 1, 0] := by
  rw [turn]
  simp

theorem turn_conj : turn .x (π / 4) * (turn .y x * turn .x (3 * π / 4)) = (-1 : ℂ) • turn .z x := by
  have hRoot := root_mul_root
  have hI : I * I = -1 := Complex.I_mul_I
  rw [turn_x_quarter, turn_x_three_quarters, turn, turn, mul_fin_two, mul_fin_two, smul_entries]
  apply entries_congr
  · linear_combination (-2 * (cos x : ℂ) + 2 * I * sin x) * hRoot + root * root * cos x * hI
  · linear_combination root * root * sin x * hI
  · linear_combination -(root * root * sin x) * hI
  · linear_combination (-2 * (cos x : ℂ) - 2 * I * sin x) * hRoot + root * root * cos x * hI

theorem turn_z_eq :
    turn .z x = ((cos x : ℂ) - I * sin x) • !![1, 0; 0, (cos (2 * x) : ℂ) + I * sin (2 * x)] := by
  have hI : I * I = -1 := Complex.I_mul_I
  have hCircle : (sin x : ℂ) * sin x + cos x * cos x = 1 := by
    rw [← Complex.ofReal_mul, ← Complex.ofReal_mul, ← Complex.ofReal_add, ← sq, ← sq,
      sin_sq_add_cos_sq, Complex.ofReal_one]
  rw [turn, smul_entries, cos_two_mul, sin_two_mul]
  push_cast at hCircle ⊢
  apply entries_congr
  · ring
  · ring
  · ring
  · linear_combination (-2 * Complex.cos x) * hCircle +
      2 * Complex.sin x * Complex.sin x * Complex.cos x * hI

theorem norm_cos_sub : ‖(cos x : ℂ) - I * sin x‖ = 1 := by
  have hExp : (cos x : ℂ) - I * sin x = Complex.exp ((-x : ℝ) * I) := by
    rw [Complex.exp_mul_I, ← Complex.ofReal_cos, ← Complex.ofReal_sin, cos_neg, sin_neg]
    push_cast
    ring
  rw [hExp, Complex.norm_exp_ofReal_mul_I]

---- Gates on one qubit

-- Which gates the circuits of rotations invert.
def isInverted : Op → Bool
  | .s | .t => true
  | _ => false

-- The matrix of a gate without angles, inverted for some of them.
noncomputable def inverted? (op : Op) : Option Gate2 :=
  (fixed? op).map fun m => if isInverted op then conjTranspose m else m

theorem inverted?_x : inverted? .x = some !![0, 1; 1, 0] := congrArg some (square2_eq _ _ _ _)

theorem inverted?_y : inverted? .y = some !![0, -I; I, 0] := congrArg some (square2_eq _ _ _ _)

theorem inverted?_z : inverted? .z = some !![1, 0; 0, -1] := congrArg some (square2_eq _ _ _ _)

theorem inverted?_h : inverted? .h = some !![root, root; root, -root] :=
  congrArg some (square2_eq _ _ _ _)

theorem inverted?_k : inverted? .k = some !![root, -(I * root); I * root, -root] :=
  congrArg some (square2_eq _ _ _ _)

theorem conjTranspose_diagonal (d : ℂ) :
    conjTranspose !![1, 0; 0, d] = !![1, 0; 0, (starRingEnd ℂ) d] := by
  ext i j
  fin_cases i <;> fin_cases j <;> simp

theorem inverted?_s : inverted? .s = some !![1, 0; 0, -I] := by
  have hMatrix : (square2 1 0 0 I : Square 2 ℂ) = !![1, 0; 0, I] := square2_eq _ _ _ _
  change some (Matrix.conjTranspose (Gate.square2 1 0 0 I : Square 2 ℂ)) = _
  rw [hMatrix, conjTranspose_diagonal, Complex.conj_I]

theorem inverted?_t : inverted? .t = some !![1, 0; 0, root - I * root] := by
  have hMatrix : (square2 1 0 0 (root + I * root) : Square 2 ℂ) = !![1, 0; 0, root + I * root] :=
    square2_eq _ _ _ _
  have hRoot : (starRingEnd ℂ) root = root := Complex.conj_ofReal _
  change some (Matrix.conjTranspose (Gate.square2 1 0 0 (root + I * root) : Square 2 ℂ)) = _
  rw [hMatrix, conjTranspose_diagonal, map_add, map_mul, hRoot, Complex.conj_I, neg_mul,
    ← sub_eq_add_neg]

theorem samePhase_turned {x : ℝ} {d : ℂ} (hPhase : (cos (2 * x) : ℂ) + I * sin (2 * x) = d) :
    SamePhase (turn .x (π / 4) * (turn .y x * turn .x (3 * π / 4))) !![1, 0; 0, d] := by
  refine ⟨-((cos x : ℂ) - I * sin x), by rw [norm_neg, norm_cos_sub], ?_⟩
  rw [turn_conj, turn_z_eq, hPhase, smul_smul, neg_one_mul]

theorem samePhase_x : SamePhase (turn .x (π / 2)) !![0, 1; 1, 0] := by
  refine ⟨-I, by simp, ?_⟩
  rw [turn_x_half, smul_entries]
  apply entries_congr <;> ring

theorem samePhase_y : SamePhase (turn .y (π / 2)) !![0, -I; I, 0] := by
  have hI : I * I = -1 := Complex.I_mul_I
  refine ⟨-I, by simp, ?_⟩
  rw [turn_y_half, smul_entries]
  apply entries_congr
  · ring
  · linear_combination -hI
  · linear_combination hI
  · ring

theorem samePhase_h :
    SamePhase (turn .x (π / 2) * turn .y (π / 4)) !![root, root; root, -root] := by
  refine ⟨-I, by simp, ?_⟩
  rw [turn_x_half, turn_y_quarter, mul_fin_two, smul_entries]
  apply entries_congr <;> ring

theorem samePhase_k :
    SamePhase (turn .y (π / 2) * turn .x (3 * π / 4)) !![root, -(I * root); I * root, -root] := by
  have hI : I * I = -1 := Complex.I_mul_I
  refine ⟨I, by simp, ?_⟩
  rw [turn_y_half, turn_x_three_quarters, mul_fin_two, smul_entries]
  apply entries_congr
  · ring
  · linear_combination root * hI
  · linear_combination -root * hI
  · ring

theorem samePhase_z :
    SamePhase (turn .x (π / 4) * (turn .y (π / 2) * turn .x (3 * π / 4))) !![1, 0; 0, -1] := by
  refine samePhase_turned ?_
  rw [show 2 * (π / 2) = π by ring]
  simp

theorem samePhase_s :
    SamePhase (turn .x (π / 4) * (turn .y (3 * π / 4) * turn .x (3 * π / 4))) !![1, 0; 0, -I] := by
  refine samePhase_turned ?_
  rw [show 2 * (3 * π / 4) = π / 2 + π by ring]
  simp

theorem samePhase_t :
    SamePhase (turn .x (π / 4) * (turn .y (7 * π / 8) * turn .x (3 * π / 4)))
      !![1, 0; 0, root - I * root] := by
  refine samePhase_turned ?_
  rw [show 2 * (7 * π / 8) = -(π / 4) + 2 * π by ring, cos_add_two_pi, sin_add_two_pi, cos_neg,
    sin_neg, cos_pi_div_four, sin_pi_div_four, Complex.ofReal_neg]
  change root + I * -root = _
  ring

end Exact

namespace SamePhase
open Joint
variable {Q : Type}

theorem refl (U : Operator Q) : SamePhase U U := ⟨1, norm_one, (one_smul ℂ U).symm⟩

theorem mul {U U' V V' : Operator Q} (hLast : SamePhase V V') (hFirst : SamePhase U U') :
    SamePhase (V * U) (V' * U') := by
  rcases hLast with ⟨c, hc, rfl⟩
  rcases hFirst with ⟨d, hd, rfl⟩
  refine ⟨c * d, by rw [norm_mul, hc, hd, one_mul], ?_⟩
  rw [smul_mul_smul_comm]

theorem on [DecidableEq Q] {U V : Matrix (Fin 2) (Fin 2) ℂ} (hSame : SamePhase V U) (q : Q) :
    SamePhase (Joint.on q V) (Joint.on q U) := by
  rcases hSame with ⟨c, hc, rfl⟩
  exact ⟨c, hc, on_smul q c U⟩

end SamePhase

namespace Program
open Joint
variable {Q : Type} [DecidableEq Q]

-- The place of two bits in a matrix on two qubits.
def joined (p : Fin 2 × Fin 2) : Fin 4 := ⟨2 * p.1.val + p.2.val, by omega⟩

def byBits (m : Square 4 ℂ) : Gate4 := fun p p' => m (joined p) (joined p')

theorem high_joined : ∀ p : Fin 2 × Fin 2, high (joined p) = p.1 := by decide

theorem low_joined : ∀ p : Fin 2 × Fin 2, low (joined p) = p.2 := by decide

theorem byBits_either (a b : Square 2 ℂ) (p p' : Fin 2 × Fin 2) :
    byBits (either a b) p p' =
      if p.1 = p'.1 then (if p.1 = 0 then a p.2 p'.2 else b p.2 p'.2) else 0 := by
  simp only [byBits, either, high_joined, low_joined]
  rfl

abbrev Addresses := Reg → Int

noncomputable def gate? (place : Int → Q) (fixed : Op → Option Exact.Gate2) (held : Addresses)
    (op : Op) (operands : List Operand) : Option (Operator Q) :=
  match operands with
  | [.reg q] => (fixed op).map (on (place (held q)))
  | [.reg q, .imm n, .imm d] =>
    (Gate.axis? op).map fun axis => on (place (held q)) (Exact.rotation axis ⟨n, d⟩)
  | [.reg q, .reg r] =>
    (fixedPair? op).map fun m => onPair (place (held q)) (place (held r)) (byBits m)
  | [.reg q, .reg r, .imm n, .imm d] =>
    (controlledAxis? op).map fun axis =>
      onPair (place (held q)) (place (held r)) (byBits (controlled axis ⟨n, d⟩))
  | _ => none

def assigned? (op : Op) (operands : List Operand) : Option (Reg × Int) :=
  match op, operands with
  | .set, [.reg r, .imm v] => some (r, v)
  | _, _ => none

noncomputable def step? (place : Int → Q) (fixed : Op → Option Exact.Gate2)
    (held : Addresses) : Instr → Option (Addresses × Operator Q)
  | .note _ => some (held, 1)
  | .op _ op operands _ =>
    match assigned? op operands with
    | some (r, v) => some (Function.update held r v, 1)
    | none => (gate? place fixed held op operands).map fun U => (held, U)

noncomputable def run? (place : Int → Q)
    (fixed : Op → Option Exact.Gate2) : Addresses → List Instr → Option (Addresses × Operator Q)
  | held, [] => some (held, 1)
  | held, i :: rest =>
    (step? place fixed held i).bind fun first =>
      (run? place fixed first.1 rest).map fun later => (later.1, later.2 * first.2)

variable {place : Int → Q} {fixed : Op → Option Exact.Gate2}

theorem run?_append (held : Addresses) (is js : List Instr) :
    run? place fixed held (is ++ js) = (run? place fixed held is).bind fun first =>
        (run? place fixed first.1 js).map fun later => (later.1, later.2 * first.2) := by
  induction is generalizing held with
  | nil => exact Option.map_id'.symm
  | cons i rest ih =>
    simp only [List.cons_append, run?, ih]
    cases step? place fixed held i with
    | none => rfl
    | some first =>
      simp only [Option.bind_some]
      cases run? place fixed first.1 rest with
      | none => rfl
      | some second => simp [Function.comp_def, mul_assoc]

theorem run?_single (held : Addresses) (i : Instr) :
    run? place fixed held [i] = step? place fixed held i := by
  simp only [run?]
  cases step? place fixed held i with
  | none => rfl
  | some first => simp

end Program

end QuantumNode
