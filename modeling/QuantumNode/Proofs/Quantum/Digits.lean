import Mathlib
import QuantumNode.Quantum.Digits

/-
  With exact arithmetic every angle is taken apart into angles whose numbers fit into one byte each,
  in a few rounds, and what is left is at most the tolerance.
-/

namespace QuantumNode.Digits
open Fraction

-- Fractions are the exact numbers.
instance : Fraction ℚ where
  greater a b := b < a
  isZero a := a = 0
  floorScaled a d := ⌊a * 2 ^ d⌋
  subtract a n d := a - n / 2 ^ d

-- The largest exponent for which a rest has a numerator in range.
def exactExponent (rest : ℚ) : Int := Int.log 2 (maxNumerator / rest)

def value (a : Angle) : ℚ := a.num / 2 ^ a.exp

def wrapped (r : ℚ) : ℚ := r - 2 * ⌊r / 2⌋

-- An angle that is taken away from a rest: its numerator fits into one byte, and at most a 127th of
-- the rest is left.
structure Fitting (rest : ℚ) (a : Angle) : Prop where
  num_pos : 0 < a.num
  num_le : a.num ≤ 255
  exp_lt : a.exp < 32
  value_le : value a ≤ rest
  left_le : 127 * (rest - value a) ≤ rest

theorem Fitting.value_pos {rest : ℚ} {a : Angle} (hFits : Fitting rest a) : 0 < value a :=
  div_pos (Int.cast_pos.mpr hFits.num_pos) (by positivity)

theorem fitting_floor {rest : ℚ} (hLow : 2 ^ (-20 : ℤ) < rest) :
    Fitting rest ⟨⌊rest * 2 ^ exactExponent rest⌋, exactExponent rest⟩ := by
  have hRest : 0 < rest := lt_trans (by positivity) hLow
  have hRatio : 0 < (maxNumerator : ℚ) / rest := div_pos (by norm_num [maxNumerator]) hRest
  set d := exactExponent rest with hd
  have hPower : (0 : ℚ) < 2 ^ d := by positivity
  -- The exponent is the one with 255 / 2 < rest * 2 ^ d ≤ 255.
  have hBelow : rest * 2 ^ d ≤ 255 := by
    have hLog : (2 : ℚ) ^ d ≤ 255 / rest := Int.zpow_log_le_self one_lt_two hRatio
    rwa [le_div_iff₀' hRest] at hLog
  have hAbove : 255 < rest * 2 ^ d * 2 := by
    have hLog : (255 : ℚ) / rest < 2 ^ (d + 1) := Int.lt_zpow_succ_log_self one_lt_two _
    rwa [div_lt_iff₀' hRest, zpow_add_one₀ two_ne_zero, ← mul_assoc] at hLog
  have hNum : (127 : ℤ) ≤ ⌊rest * 2 ^ d⌋ := Int.le_floor.mpr (by norm_num; linarith)
  have hFloor : (⌊rest * 2 ^ d⌋ : ℚ) ≤ rest * 2 ^ d := Int.floor_le _
  have hNext : rest * 2 ^ d < ⌊rest * 2 ^ d⌋ + 1 := Int.lt_floor_add_one _
  have hNum' : (127 : ℚ) ≤ ⌊rest * 2 ^ d⌋ := by exact_mod_cast hNum
  refine ⟨lt_of_lt_of_le (by norm_num) hNum, Int.floor_le_iff.mpr (by norm_num; linarith), ?_, ?_, ?_⟩
  · -- A larger exponent would scale the rest beyond the bound.
    by_contra hLarge
    have hMore : (2 : ℚ) ^ (32 : ℤ) ≤ 2 ^ d := zpow_le_zpow_right₀ one_le_two (not_lt.mp hLarge)
    have hScaled : (2 : ℚ) ^ (-20 : ℤ) * 2 ^ (32 : ℤ) ≤ rest * 2 ^ d := by gcongr
    norm_num at hScaled
    linarith
  · rw [value, div_le_iff₀ hPower]
    exact hFloor
  · have hScaled : 127 * (rest - value ⟨⌊rest * 2 ^ d⌋, d⟩) * 2 ^ d ≤ rest * 2 ^ d := by
      rw [value, mul_assoc, sub_mul, div_mul_cancel₀ _ hPower.ne']
      linarith
    exact le_of_mul_le_mul_right hScaled hPower

theorem split_of_le {tol rest : ℚ} (hEnd : rest ≤ tol) (fuel : Nat) :
    split exactExponent tol fuel rest = .ok [] := by
  cases fuel with
  | zero => rfl
  | succ fuel => simp [split, greater, hEnd]

theorem split_of_lt {tol rest : ℚ} (hTol : 2 ^ (-20 : ℤ) ≤ tol) (hMore : tol < rest) :
    ∃ a, Fitting rest a ∧ ∀ fuel, split exactExponent tol (fuel + 1) rest =
      (split exactExponent tol fuel (rest - value a)).map (a :: ·) := by
  have hLow := hTol.trans_lt hMore
  have hFits := fitting_floor hLow
  have hSome : rest ≠ 0 := (lt_trans (by positivity) hLow).ne'
  have hNum : ⌊rest * 2 ^ exactExponent rest⌋ ≤ (maxNumerator : ℤ) := hFits.num_le
  refine ⟨_, hFits, fun fuel => ?_⟩
  simp only [split, greater, hMore, isZero, hSome, floorScaled, demand, hNum, decide_true,
    decide_false, Bool.false_eq_true, if_true, if_false]
  rfl

-- The rounds end by themselves: each divides what is left by 127 at least.
theorem split_exact {tol : ℚ} (hTol : 2 ^ (-20 : ℤ) ≤ tol) (fuel : Nat) {rest : ℚ}
    (hRest : 0 ≤ rest) (hFuel : rest ≤ tol * 127 ^ fuel) :
    ∃ as, (∀ more, split exactExponent tol (fuel + more) rest = .ok as) ∧
      (∀ a ∈ as, ∃ part ≤ rest, Fitting part a) ∧
      0 ≤ rest - (as.map value).sum ∧ rest - (as.map value).sum ≤ tol := by
  induction fuel generalizing rest with
  | zero =>
    have hEnd : rest ≤ tol := by simpa using hFuel
    exact ⟨[], fun more => split_of_le hEnd _, by simp, by simpa, by simpa⟩
  | succ fuel ih =>
    rcases le_or_gt rest tol with hEnd | hMore
    · exact ⟨[], fun more => split_of_le hEnd _, by simp, by simpa, by simpa⟩
    rcases split_of_lt hTol hMore with ⟨a, hFits, hStep⟩
    have hLess : rest - value a ≤ tol * 127 ^ fuel := by
      have hLeft := hFits.left_le
      rw [pow_succ] at hFuel
      linarith
    rcases ih (sub_nonneg.mpr hFits.value_le) hLess with ⟨as, hSplit, hEach, hLeft, hClose⟩
    rw [sub_sub, ← List.sum_cons, ← List.map_cons] at hLeft hClose
    refine ⟨a :: as, fun more => ?_, ?_, hLeft, hClose⟩
    · rw [Nat.add_right_comm, hStep, hSplit]
      rfl
    · refine List.forall_mem_cons.mpr ⟨⟨rest, le_rfl, hFits⟩, fun b hb => ?_⟩
      rcases hEach b hb with ⟨part, hPart, hFits'⟩
      exact ⟨part, by linarith [hFits.value_pos], hFits'⟩

-- The same angle with an odd numerator.
structure Lowest (a b : Angle) : Prop where
  odd : b.num % 2 = 1
  num_pos : 0 < b.num
  num_le : b.num ≤ a.num
  exp_le : b.exp ≤ a.exp
  value_eq : value b = value a

theorem lowest_simplify (fuel : Nat) (a : Angle) (hPos : 0 < a.num) (hSmall : a.num < 2 ^ fuel) :
    Lowest a (simplify fuel a) := by
  induction fuel generalizing a with
  | zero =>
    rw [pow_zero] at hSmall
    omega
  | succ fuel ih =>
    rw [simplify]
    split_ifs with hEven
    · rw [pow_succ] at hSmall
      have hHalf : 0 < a.num / 2 ∧ a.num / 2 < 2 ^ fuel ∧ a.num / 2 ≤ a.num := by omega
      have hTwice : ((a.num / 2 : ℤ) : ℚ) * 2 = a.num := by
        exact_mod_cast Int.ediv_mul_cancel (Int.dvd_of_emod_eq_zero hEven)
      have hLowest := ih ⟨a.num / 2, a.exp - 1⟩ hHalf.1 hHalf.2.1
      refine ⟨hLowest.odd, hLowest.num_pos, hLowest.num_le.trans hHalf.2.2,
        hLowest.exp_le.trans (by simp), ?_⟩
      rw [hLowest.value_eq, value, value, ← hTwice, zpow_sub_one₀ two_ne_zero]
      field_simp
    · exact ⟨by omega, hPos, le_rfl, le_rfl, rfl⟩

theorem Lowest.exp_nonneg {a b : Angle} (hLowest : Lowest a b) (hSmall : value a < 2) :
    0 ≤ b.exp := by
  have hPower : (0 : ℚ) < 2 ^ b.exp := by positivity
  have hNum : (1 : ℚ) ≤ b.num := by exact_mod_cast hLowest.num_pos
  rw [← hLowest.value_eq, value, div_lt_iff₀ hPower, mul_comm, ← zpow_add_one₀ two_ne_zero] at hSmall
  have hExp := (one_lt_zpow_iff_right₀ one_lt_two).mp (hNum.trans_lt hSmall)
  omega

-- A sum of angles for a rest: the numerators are odd and take one byte, the exponents are small and
-- not negative, and at most the tolerance is missing.
structure Approximates (tol rest : ℚ) (as : List Angle) : Prop where
  numbers : ∀ a ∈ as, 1 ≤ a.num ∧ a.num ≤ 255 ∧ a.num % 2 = 1 ∧ 0 ≤ a.exp ∧ a.exp < 32
  below : 0 ≤ rest - (as.map value).sum
  close : rest - (as.map value).sum ≤ tol

-- Every angle is taken apart, in at most four rounds.
theorem digits_exact
    (r tol : ℚ)
    (hTol : 2 ^ (-20 : ℤ) ≤ tol) :
    ∃ as, digits exactExponent tol (wrapped r) = .ok as ∧
      (∀ rounds ≥ 4, (split exactExponent tol rounds (wrapped r)).map clean = .ok as) ∧
      Approximates tol (wrapped r) as := by
  have hLow : 0 ≤ wrapped r := by
    rw [wrapped]
    linarith [Int.floor_le (r / 2)]
  have hHigh : wrapped r < 2 := by
    rw [wrapped]
    linarith [Int.lt_floor_add_one (r / 2)]
  have hFuel : wrapped r ≤ tol * 127 ^ 4 := by
    norm_num at hTol ⊢
    linarith
  rcases split_exact hTol 4 hLow hFuel with ⟨as, hSplit, hEach, hLeft, hClose⟩
  have hLowest : ∀ a ∈ as, Lowest a (simplify 8 a) := by
    intro a ha
    rcases hEach a ha with ⟨_, _, hFits⟩
    exact lowest_simplify 8 a hFits.num_pos (hFits.num_le.trans_lt (by norm_num))
  have hNumbers : ∀ b ∈ as.map (simplify 8),
      1 ≤ b.num ∧ b.num ≤ 255 ∧ b.num % 2 = 1 ∧ 0 ≤ b.exp ∧ b.exp < 32 := by
    refine List.forall_mem_map.mpr fun a ha => ?_
    rcases hEach a ha with ⟨part, hPart, hFits⟩
    have hLowest := hLowest a ha
    exact ⟨hLowest.num_pos, hLowest.num_le.trans hFits.num_le, hLowest.odd,
      hLowest.exp_nonneg ((hFits.value_le.trans hPart).trans_lt hHigh),
      hLowest.exp_le.trans_lt hFits.exp_lt⟩
  have hClean : clean as = as.map (simplify 8) :=
    List.filter_eq_self.mpr fun b hb => decide_eq_true (hNumbers b hb).2.2.2.2
  have hSum : ((clean as).map value).sum = (as.map value).sum := by
    rw [hClean, List.map_map]
    exact congrArg List.sum (List.map_congr_left fun a ha => (hLowest a ha).value_eq)
  have hRounds : ∀ rounds ≥ 4,
      (split exactExponent tol rounds (wrapped r)).map clean = .ok (clean as) := by
    intro rounds hRounds
    rw [← Nat.add_sub_cancel' hRounds, hSplit]
    rfl
  rw [← hSum] at hLeft hClose
  exact ⟨clean as, hRounds stepLimit (by decide), hRounds, ⟨hClean ▸ hNumbers, hLeft, hClose⟩⟩

-- A third of pi within the usual tolerance.
theorem digits_exact_third :
    ∃ as, digits exactExponent (1 / 10000) (wrapped (1 / 3)) = .ok as ∧
      Approximates (1 / 10000) (wrapped (1 / 3)) as := by
  rcases digits_exact (1 / 3) (1 / 10000) (by norm_num) with ⟨as, hDigits, _, hClose⟩
  exact ⟨as, hDigits, hClose⟩

end QuantumNode.Digits
