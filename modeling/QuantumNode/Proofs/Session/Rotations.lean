import Mathlib.Analysis.Real.Pi.Bounds
import QuantumNode.Proofs.Session.Adding

/-
  Rotations from a session to a node. An angle has two numbers, and a byte is written for each of
  them.
-/

open List

namespace QuantumNode.Session
open Assembly Item
variable {s t u : Session} {d : Draft} {p : Subroutine} {n e : Int} {o : Op}

-- Numbers modulo 256 make an angle that is off by whole turns if twice the denominator divides what
-- the numerator loses, and only then.
theorem turns_lost (n : Int) (hExponent : 0 ≤ e) :
    (∃ turns : ℤ, (n % 256 : ℤ) * Real.pi / 2 ^ (e % 256) =
      n * Real.pi / 2 ^ e + turns * (2 * Real.pi)) ↔
      2 ^ (e.toNat + 1) ∣ n - n % 256 * 2 ^ (e - e % 256).toNat := by
  have hParts : (2 : ℝ) ^ e = 2 ^ (e % 256) * 2 ^ (e - e % 256).toNat := by
    rw [← zpow_natCast, ← zpow_add₀ two_ne_zero]
    congr 1
    omega
  have hWhole : (2 : ℝ) ^ e = 2 ^ e.toNat := by
    rw [← zpow_natCast, Int.toNat_of_nonneg hExponent]
  have hTurns : ∀ turns : ℤ, (n % 256 : ℤ) * Real.pi / 2 ^ (e % 256) =
        n * Real.pi / 2 ^ e + turns * (2 * Real.pi) ↔
      n - n % 256 * 2 ^ (e - e % 256).toNat = 2 ^ (e.toNat + 1) * -turns := by
    intro turns
    have hPi := Real.pi_ne_zero
    rw [← @Int.cast_inj ℝ, pow_succ]
    push_cast
    rw [← hWhole, hParts]
    field_simp
    constructor <;> intro hEqual <;> linarith
  constructor
  · rintro ⟨turns, hAngle⟩
    exact ⟨-turns, (hTurns turns).mp hAngle⟩
  · rintro ⟨lost, hLost⟩
    exact ⟨-lost, (hTurns _).mpr (by rwa [neg_neg])⟩

-- A rotation is taken only if no number of its angle is negative, and its command comes last.
theorem rotation_ok (hRotate : effect (rotation o address (.int n) (.int e)) s = (.ok a, t)) :
    0 ≤ n ∧ 0 ≤ e ∧
      ∃ u, Adds [command o [.reg (qubitRegister 0), .int n, .int e]] u t := by
  have hCount : ∀ v : Int, isCount (.int v) = pure (decide (0 ≤ v)) := fun _ => rfl
  simp only [rotation, hCount, pure_bind] at hRotate
  by_cases hNumerator : 0 ≤ n <;> by_cases hExponent : 0 ≤ e
  all_goals simp only [hNumerator, hExponent, decide_true, decide_false, if_true] at hRotate
  · rcases of_bind_ok hRotate with ⟨_, u, _, hLater⟩
    have hEmit : effect (emit o [.reg (qubitRegister 0), .int n, .int e]) u = (.ok a, t) := hLater
    exact ⟨hNumerator, hExponent, u, adds_emit hEmit⟩
  all_goals cases hRotate

-- The instruction for it has the same numbers.
theorem rotation_compiled (hRotation : o ∈ [Op.rotX, .rotY, .rotZ])
    (hAdds : Adds [command o [.reg q, .int n, .int e]] s t)
    (hDraft : effect popDraft t = (.ok (some d), u))
    (hAssemble : assemble .full .vanilla d = .ok p) :
    ∃ line, .op .vanilla o [.reg q, .imm n, .imm e] line ∈ p.instrs := by
  rcases Flow.popDraft_drafted hDraft with ⟨made, hDrafted⟩
  have hMember : command o [.reg q, .int n, .int e] ∈ d.items.map bare := by
    have hItems : d.items.map bare = _ := hDrafted.items_eq
    rw [hItems, map_append, map_append, hAdds.pending]
    simp
  rcases mem_map.mp hMember with ⟨⟨_, _, _, line⟩ | _, hItem, ⟨⟩⟩
  rcases expanded_of_assemble hAssemble with ⟨_, _, hExpanded, _, hBuild, _⟩
  rcases instr_of_build hExpanded hBuild hItem with
    ⟨held, _, os, _, fitted, hExpands, hFit, hFound, hThere⟩
  simp only [mem_cons, not_mem_nil, or_false] at hRotation
  have hNone : held = [] := by
    have hValues := hExpands.values
    rcases hRotation with rfl | rfl | rfl <;> exact map_eq_nil_iff.mp hValues
  subst hNone
  have hSame : os = [.reg q, .int n, .int e] := by
    rcases hExpands.operands with
      _ | ⟨_ | ⟨_, ⟨⟩⟩, _ | ⟨_ | ⟨_, ⟨⟩⟩, _ | ⟨_ | ⟨_, ⟨⟩⟩, ⟨⟩⟩⟩⟩
    rfl
  subst hSame
  rcases hRotation with rfl | rfl | rfl <;> cases hFit <;> cases hFound <;> exact ⟨line, hThere⟩

/-
  A rotation is read with both numbers of its angle modulo 256. It turns by the same angle exactly
  if the numerator loses a multiple of twice the denominator. The numbers that a session takes come
  to the subroutine as they are.
-/
theorem rotation_read_modulo
    {o : Op}
    (hRotation : o ∈ [Op.rotX, .rotY, .rotZ])
    (n e : Int) :
    (∀ q line, ∃ bs, (Instr.op .vanilla o [.reg q, .imm n, .imm e] line).encode = .ok bs ∧
      Instr.decode .vanilla bs = .ok (.op .vanilla o
        [.reg ⟨q.bank, q.index % 16⟩, .imm (n % 256), .imm (e % 256)] none)) ∧
    (0 ≤ e → ((∃ turns : ℤ, (n % 256 : ℤ) * Real.pi / 2 ^ (e % 256) =
        n * Real.pi / 2 ^ e + turns * (2 * Real.pi)) ↔
      2 ^ (e.toNat + 1) ∣ n - n % 256 * 2 ^ (e - e % 256).toNat)) ∧
    ∀ address s a t d u p, effect (rotation o address (.int n) (.int e)) s = (.ok a, t) →
      effect popDraft t = (.ok (some d), u) → assemble .full .vanilla d = .ok p →
      0 ≤ n ∧ 0 ≤ e ∧
        ∃ line, .op .vanilla o [.reg (qubitRegister 0), .imm n, .imm e] line ∈ p.instrs := by
  refine ⟨fun q line => Instr.decode_rotation hRotation .vanilla q n e line, turns_lost n, ?_⟩
  intro address s a t d u p hRotate hDraft hAssemble
  rcases rotation_ok hRotate with ⟨hNumerator, hExponent, _, hAdds⟩
  exact ⟨hNumerator, hExponent, rotation_compiled hRotation hAdds hDraft hAssemble⟩

theorem rotation_read_modulo_half_turn :
    (∃ t d u p line,
      effect (rotation .rotX (.fixed 0) (.int 256) (.int 8)) (Flow.startingSession none) =
        (.ok (), t) ∧ effect popDraft t = (.ok (some d), u) ∧ assemble .full .vanilla d = .ok p ∧
      .op .vanilla .rotX [.reg ⟨.q, 0⟩, .imm 256, .imm 8] line ∈ p.instrs) ∧
    ¬ ∃ turns : ℤ, (256 % 256 : ℤ) * Real.pi / 2 ^ (8 % 256 : ℤ) =
        (256 : ℤ) * Real.pi / 2 ^ (8 : ℤ) + turns * (2 * Real.pi) := by
  rcases rotation_read_modulo (o := .rotX) (by decide) 256 8 with ⟨_, hTurns, hCompiled⟩
  refine ⟨?_, fun hSame => absurd ((hTurns (by decide)).mp hSame) (by decide)⟩
  rcases hCompiled (.fixed 0) (Flow.startingSession none) _ _ _ _ _ rfl rfl rfl with ⟨_, _, line, hMember⟩
  exact ⟨_, _, _, _, line, rfl, rfl, rfl, hMember⟩

end QuantumNode.Session
