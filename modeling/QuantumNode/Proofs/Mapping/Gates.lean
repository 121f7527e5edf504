import QuantumNode.Proofs.Mapping.Blocks
import QuantumNode.Proofs.Quantum.Program

/-
  Mapping programs without branches: gates on one qubit become rotations with the same product up to
  a phase, apart from two of them, which are inverted; and wherever the electron is, the circuits
  for controlled gates have their operators up to a phase. The matrices of these circuits have
  Gaussian integers as entries, up to powers of the root of one half.
-/

open List

namespace QuantumNode.Mapping
open Program Joint Exact Circuit
variable {axis : Gate.Axis} {is : List Instr} {op : Op} {o : Options} {Q : Type}

theorem retargetAll_plain (hPlain : ∀ i ∈ is, target? i = none) : retargetAll bs is = .ok is := by
  induction is with
  | nil => rfl
  | cons i rest ih =>
    have hHead : retarget bs i = .ok i := by simp [retarget, hPlain i mem_cons_self]
    simp only [retargetAll, hHead, ih fun j hj => hPlain j (mem_cons_of_mem _ hj)]
    rfl

theorem toNv_plain (hBlocks : blocks o .empty s.instrs = .ok (bs, known))
    (hPlain : ∀ i ∈ bs.flatten, target? i = none) :
    toNv o s = .ok ({ s with instrs := bs.flatten }, known) := by
  have hStays : bs.flatten.any (leaves bs.length) = false := by
    rw [any_eq_false]
    intro i hMember
    simp only [leaves, hPlain i hMember]
    simp
  simp only [toNv, hBlocks, retargetAll_plain hPlain, hStays, bind, Except.bind, pure, Except.pure]
  simp

section Rotations
variable [DecidableEq Q]
variable {place : Int → Q} {fixed : Op → Option Gate2}

theorem step?_rotation (hAxis : Gate.axis? op = some axis) :
    step? place fixed held (.op family op [.reg q, .imm n, .imm d] line) =
      some (held, on (place (held q)) (turn axis (half ⟨n, d⟩))) := by
  rw [← rotation_eq]
  cases op <;> first | (cases hAxis; rfl) | cases hAxis

theorem step?_rot (hAxis : Gate.axis? op = some axis) : step? place fixed held (rot line op q n) =
      some (held, on (place (held q)) (turn axis (half ⟨n, 4⟩))) :=
  step?_rotation hAxis

-- The operators of rotations of one qubit are those of the product of their matrices.
theorem run?_rots_two (hFirst : Gate.axis? op = some axis) (hSecond : Gate.axis? op' = some axis') :
    run? place fixed held [rot line op q n, rot line op' q n'] =
      some (held, on (place (held q)) (turn axis' (half ⟨n', 4⟩) * turn axis (half ⟨n, 4⟩))) := by
  simp [run?, step?_rot hFirst, step?_rot hSecond, on_mul]

theorem run?_rots_three (hFirst : Gate.axis? op = some axis) (hSecond : Gate.axis? op' = some axis')
    (hThird : Gate.axis? op'' = some axis'') :
    run? place fixed held [rot line op q n, rot line op' q n', rot line op'' q n''] =
      some (held, on (place (held q))
        (turn axis'' (half ⟨n'', 4⟩) * (turn axis' (half ⟨n', 4⟩) * turn axis (half ⟨n, 4⟩)))) := by
  simp [run?, step?_rot hFirst, step?_rot hSecond, step?_rot hThird, on_mul, Matrix.mul_assoc]

theorem target?_of_step? (hStep : step? place fixed? held i = some p) : target? i = none := by
  cases i with
  | note words => rfl
  | op family op os line =>
    by_cases hBranch : op ∈ [Op.jmp, .bez, .bnz, .beq, .bne, .blt, .bge]
    · have hNone : assigned? op os = none ∧ gate? place fixed? held op os = none := by
        simp only [mem_cons, not_mem_nil, or_false] at hBranch
        unfold gate?
        rcases hBranch with rfl | rfl | rfl | rfl | rfl | rfl | rfl <;> refine ⟨rfl, ?_⟩ <;>
          split <;> rfl
      simp only [step?, hNone.1, hNone.2] at hStep
      cases hStep
    · cases op <;> first | rfl | exact absurd (by decide) hBranch

theorem target?_of_run? (hRun : run? place fixed? held is = some p) :
    ∀ i ∈ is, target? i = none := by
  induction is generalizing held p with
  | nil => simp
  | cons i rest ih =>
    simp only [run?, Option.bind_eq_some_iff, Option.map_eq_some_iff] at hRun
    rcases hRun with ⟨_, hStep, _, hLater, rfl⟩
    exact forall_mem_cons.mpr ⟨target?_of_step? hStep, ih hLater⟩

end Rotations

-- Instructions that set a register or are gates on one qubit. On hardware the power of two below an
-- angle is limited.
def Single (hardware : Bool) : Instr → Prop
  | .op .core .set [.reg _, .imm _] _ => True
  | .op .vanilla op [.reg _] _ => op ∈ [.x, .y, .z, .h, .s, .k, .t]
  | .op .vanilla op [.reg _, .imm _, .imm d] _ =>
    op ∈ [.rotX, .rotY, .rotZ] ∧ (hardware = true → 0 ≤ d ∧ d ≤ 4)
  | _ => False

-- The block for an instruction has its operator up to a phase, with some gates inverted.
structure Renders (i : Instr) (block : List Instr) : Prop where
  runs : ∀ {Q : Type} [DecidableEq Q] (place : Int → Q) (held : Addresses),
      ∃ held' U V, step? place inverted? held i = some (held', U) ∧
        run? place fixed? held block = some (held', V) ∧ SamePhase V U

-- A gate without angles is rendered by rotations with its matrix up to a phase.
theorem renders_fixed {q : Reg} {line : Option HostLine} {block : List Instr} {P m : Gate2}
    (hMatrix : inverted? op = some m)
    (hRun : ∀ {Q : Type} [DecidableEq Q] (place : Int → Q) (held : Addresses),
        run? place fixed? held block = some (held, on (place (held q)) P))
    (hSame : SamePhase P m) : Renders (.op .vanilla op [.reg q] line) block where
  runs := by
    intro Q _ place held
    refine ⟨held, on (place (held q)) m, on (place (held q)) P, ?_, hRun place held, hSame.on _⟩
    cases op <;> simp [step?, assigned?, gate?, hMatrix]

theorem renders_single (hGate : op ∈ [Op.x, .y, .z, .h, .s, .k, .t])
    (q : Reg) (line : Option HostLine) :
    ∃ block, Circuit.single line q op = some block ∧
      Renders (.op .vanilla op [.reg q] line) block := by
  simp only [mem_cons, not_mem_nil, or_false] at hGate
  rcases hGate with rfl | rfl | rfl | rfl | rfl | rfl | rfl
  · refine ⟨_, rfl, renders_fixed inverted?_x (fun place held => ?_) samePhase_x⟩
    rw [run?_single, step?_rot rfl, half_16]
  · refine ⟨_, rfl, renders_fixed inverted?_y (fun place held => ?_) samePhase_y⟩
    rw [run?_single, step?_rot rfl, half_16]
  · refine ⟨_, rfl, renders_fixed inverted?_z (fun place held => ?_) samePhase_z⟩
    rw [run?_rots_three rfl rfl rfl, half_8, half_16, half_24]
  · refine ⟨_, rfl, renders_fixed inverted?_h (fun place held => ?_) samePhase_h⟩
    rw [run?_rots_two rfl rfl, half_8, half_16]
  · refine ⟨_, rfl, renders_fixed inverted?_s (fun place held => ?_) samePhase_s⟩
    rw [run?_rots_three rfl rfl rfl, half_8, half_24]
  · refine ⟨_, rfl, renders_fixed inverted?_k (fun place held => ?_) samePhase_k⟩
    rw [run?_rots_two rfl rfl, half_16, half_24]
  · refine ⟨_, rfl, renders_fixed inverted?_t (fun place held => ?_) samePhase_t⟩
    rw [run?_rots_three rfl rfl rfl, half_8, half_24, half_28]

theorem half_scaled (hBounds : 0 ≤ d ∧ d ≤ exponent) (n : Int) :
    half ⟨n * Nat.pow 2 (exponent - d).toNat, exponent⟩ = half ⟨n, d⟩ := by
  have hExponent : exponent = d + ((exponent - d).toNat : Int) := by omega
  rw [← half_scale n d (exponent - d).toNat, ← hExponent]

theorem renders_rotation (hAxis : Gate.axis? op = some axis)
    (hLimit : o.hardware = true → 0 ≤ d ∧ d ≤ 4) (q : Reg) (n : Int) (line : Option HostLine) :
    ∃ block, rotation o op q (.imm n) (.imm d) line = .ok block ∧
      Renders (.op .vanilla op [.reg q, .imm n, .imm d] line) block := by
  have hRenders : ∀ n' d', half ⟨n', d'⟩ = half ⟨n, d⟩ →
      Renders (.op .vanilla op [.reg q, .imm n, .imm d] line)
        [.op .nv op [.reg q, .imm n', .imm d'] line] := by
    intro n' d' hAngle
    refine ⟨fun _ held => ⟨held, _, _, step?_rotation hAxis, ?_, .refl _⟩⟩
    rw [run?_single, step?_rotation hAxis, hAngle]
  cases hHardware : o.hardware with
  | false =>
    refine ⟨[.op .nv op [.reg q, .imm n, .imm d] line], ?_, hRenders n d rfl⟩
    simp only [rotation, hHardware]
    rfl
  | true =>
    have hBounds : 0 ≤ d ∧ d ≤ exponent := hLimit hHardware
    refine ⟨[.op .nv op [.reg q, .imm (n * Nat.pow 2 (exponent - d).toNat), .imm exponent] line], ?_,
      hRenders _ _ (half_scaled hBounds n)⟩
    simp only [rotation, hHardware, hardwareAngle, if_pos hBounds]
    rfl

theorem expand_single (hSingle : Single o.hardware i) (k : Known) :
    ∃ block, expand o k i = .ok block ∧ Renders i block := by
  unfold Single at hSingle
  split at hSingle
  · exact ⟨_, rfl, ⟨fun _ held => ⟨_, _, _, rfl, run?_single held _, .refl _⟩⟩⟩
  · rename_i op q line
    rcases renders_single hSingle q line with ⟨block, hBlock, hRenders⟩
    refine ⟨block, ?_, hRenders⟩
    simp [expand, hBlock]
  · rename_i op q n d line
    rcases hSingle with ⟨hRotation, hLimit⟩
    have hAxis : ∃ axis, Gate.axis? op = some axis := by
      simp only [mem_cons, not_mem_nil, or_false] at hRotation
      rcases hRotation with rfl | rfl | rfl <;> exact ⟨_, rfl⟩
    rcases hAxis with ⟨axis, hAxis⟩
    exact renders_rotation hAxis hLimit q n line
  · exact hSingle.elim

theorem blocks_single (hSingle : ∀ i ∈ is, Single o.hardware i) (k : Known) :
    ∃ bs known, blocks o k is = .ok (bs, known) ∧
      ∀ {Q : Type} [DecidableEq Q] (place : Int → Q) (held : Addresses),
        ∃ held' U V, run? place inverted? held is = some (held', U) ∧
          run? place fixed? held bs.flatten = some (held', V) ∧ SamePhase V U := by
  induction is generalizing k with
  | nil => exact ⟨[], k, rfl, fun _ held => ⟨held, 1, 1, rfl, rfl, .refl _⟩⟩
  | cons i rest ih =>
    rcases expand_single (hSingle i mem_cons_self) (k.observe i) with ⟨block, hBlock, hRenders⟩
    rcases ih (fun j hj => hSingle j (mem_cons_of_mem _ hj)) (k.observe i) with
      ⟨bs, known, hBlocks, hRuns⟩
    refine ⟨block :: bs, known, ?_, ?_⟩
    · simp only [blocks, hBlock, hBlocks]
      rfl
    · intro Q _ place held
      rcases hRenders.runs place held with ⟨held₁, U₁, V₁, hStep, hRun, hFirst⟩
      rcases hRuns place held₁ with ⟨held₂, U₂, V₂, hStep₂, hRun₂, hLater⟩
      refine ⟨held₂, U₂ * U₁, V₂ * V₁, ?_, ?_, hLater.mul hFirst⟩
      · simp [run?, hStep, hStep₂]
      · rw [flatten_cons, run?_append, hRun, Option.bind_some, hRun₂, Option.map_some]

def turnsBack : Instr → Bool
  | .op _ op [.reg _] _ => isInverted op
  | _ => false

theorem step?_forward [DecidableEq Q] (hForward : turnsBack i = false) (place : Int → Q)
    (held : Addresses) : step? place inverted? held i = step? place fixed? held i := by
  unfold turnsBack at hForward
  split at hForward
  · rename_i op q line
    have hSame : inverted? op = fixed? op := by simp [inverted?, hForward]
    cases op <;> simp [step?, gate?, hSame]
  · rename_i hOther
    cases i with
    | note words => rfl
    | op family op os line =>
      have hNot : ∀ q, os ≠ [.reg q] := fun q hIs => hOther family op q line (by rw [hIs])
      simp only [step?]
      have hGate : gate? place inverted? held op os = gate? place fixed? held op os := by
        unfold gate?
        split
        · exact absurd rfl (hNot _)
        all_goals rfl
      rw [hGate]

theorem run?_forward [DecidableEq Q] (hForward : ∀ i ∈ is, turnsBack i = false)
    (place : Int → Q) (held : Addresses) :
    run? place inverted? held is = run? place fixed? held is := by
  induction is generalizing held with
  | nil => rfl
  | cons i rest ih =>
    simp [run?, step?_forward (hForward i mem_cons_self),
      ih fun j hj => hForward j (mem_cons_of_mem _ hj)]

/-
  A program of gates on single qubits is mapped, and the product of the rotations is up to a phase
  the product of the gates with S and T inverted: the product of the gates themselves if there is no
  S or T.
-/
theorem toNv_single
    (o : Options)
    (s : Subroutine)
    (hSingle : ∀ i ∈ s.instrs, Single o.hardware i) :
    ∃ mapped known, toNv o s = .ok (mapped, known) ∧
      ∀ (Q : Type) [DecidableEq Q] (place : Int → Q) (held : Addresses),
        ∃ held' U V, run? place inverted? held s.instrs = some (held', U) ∧
          run? place fixed? held mapped.instrs = some (held', V) ∧ SamePhase V U ∧
          ((∀ i ∈ s.instrs, turnsBack i = false) →
            run? place fixed? held s.instrs = some (held', U)) := by
  rcases blocks_single hSingle .empty with ⟨bs, known, hBlocks, hRuns⟩
  rcases hRuns id fun _ => 0 with ⟨_, _, _, _, hFirst, _⟩
  refine ⟨_, known, toNv_plain hBlocks (target?_of_run? hFirst), ?_⟩
  intro Q _ place held
  rcases hRuns place held with ⟨held', U, V, hRun, hMapped, hSame⟩
  refine ⟨held', U, V, hRun, hMapped, hSame, fun hForward => ?_⟩
  rw [← run?_forward hForward]
  exact hRun

-- Two qubits with gates of every kind, and an angle that is scaled.
def assorted : Subroutine := ⟨none, some 0, [], [
  core .set [.reg ⟨.q, 0⟩, .imm 0],
  core .set [.reg ⟨.q, 1⟩, .imm 3],
  .op .vanilla .h [.reg ⟨.q, 0⟩] none,
  .op .vanilla .rotZ [.reg ⟨.q, 1⟩, .imm 5, .imm 2] none,
  .op .vanilla .k [.reg ⟨.q, 1⟩] none,
  .op .vanilla .t [.reg ⟨.q, 0⟩] none]⟩

theorem toNv_single_assorted :
    (∀ i ∈ assorted.instrs, Single true i) ∧
      ∃ mapped known, toNv ⟨false, true⟩ assorted = .ok (mapped, known) ∧
        ∃ held U V, run? id inverted? (fun _ => 0) assorted.instrs = some (held, U) ∧
          run? id fixed? (fun _ => 0) mapped.instrs = some (held, V) ∧ SamePhase V U := by
  have hSingle : ∀ i ∈ assorted.instrs, Single true i := by
    simp [assorted, Single]
  rcases toNv_single ⟨false, true⟩ assorted hSingle with ⟨mapped, known, hMapped, hRuns⟩
  rcases hRuns _ id (fun _ => 0) with ⟨held, U, V, hRun, hRun', hSame, _⟩
  exact ⟨hSingle, mapped, known, hMapped, held, U, V, hRun, hRun', hSame⟩

def phased : Subroutine := ⟨none, some 0, [], [
  core .set [.reg ⟨.q, 0⟩, .imm 0],
  .op .vanilla .s [.reg ⟨.q, 0⟩] none]⟩

-- The rotations for a phase gate are not the gate, up to any phase.
theorem phased_inverted :
    ∃ mapped known held U V, toNv ⟨false, false⟩ phased = .ok (mapped, known) ∧
      run? id fixed? (fun _ => 0) phased.instrs = some (held, U) ∧
      run? id fixed? (fun _ => 0) mapped.instrs = some (held, V) ∧ ¬ SamePhase V U := by
  have hSingle : ∀ i ∈ phased.instrs, Single false i := by
    simp [phased, Single]
  rcases blocks_single (o := ⟨false, false⟩) hSingle .empty with ⟨_, known, hBlocks, hRuns⟩
  rcases hRuns id (fun _ => 0) with ⟨held, U, V, hRun, hMapped, c, hc, rfl⟩
  have hGate : fixed? .s = some !![1, 0; 0, Complex.I] := congrArg some (square2_eq _ _ _ _)
  have hInverse : run? id inverted? (fun _ => 0) phased.instrs =
      some (Function.update (fun _ => 0) ⟨.q, 0⟩ 0, on 0 !![1, 0; 0, -Complex.I]) := by
    simp [phased, run?, step?, assigned?, gate?, inverted?_s]
  have hForward : run? id fixed? (fun _ => 0) phased.instrs =
      some (Function.update (fun _ => 0) ⟨.q, 0⟩ 0, on 0 !![1, 0; 0, Complex.I]) := by
    simp [phased, run?, step?, assigned?, gate?, hGate]
  rw [hInverse] at hRun
  cases hRun
  refine ⟨_, known, _, _, _, toNv_plain hBlocks (target?_of_run? hMapped), hForward, hMapped, ?_⟩
  rintro ⟨d, hd, hSame⟩
  -- Both sides on a state with equal amplitudes, for a qubit that is zero and one that is set.
  have hAt : ∀ v : Fin 2,
      c * (if v = 0 then 1 else -Complex.I) = d * (if v = 0 then 1 else Complex.I) := by
    intro v
    have hApplied := congrFun (LinearMap.congr_fun hSame fun _ => 1) fun _ => v
    simp only [LinearMap.smul_apply, Pi.smul_apply, smul_eq_mul, on_apply] at hApplied
    fin_cases v <;> simpa using hApplied
  have hZero : c = d := by simpa using hAt 0
  have hOne : c * -Complex.I = d * Complex.I := by simpa using hAt 1
  have hNone : d = 0 := by
    rw [hZero] at hOne
    have hTwice : (2 * Complex.I) * d = 0 := by linear_combination -hOne
    exact (mul_eq_zero.mp hTwice).resolve_left (by simp)
  rw [hNone, norm_zero] at hd
  exact zero_ne_one hd

---- Rotations on hardware

theorem toNv_one (hInstrs : s.instrs = [i]) (hExpand : expand o (Known.empty.observe i) i = .ok [j])
    (hPlain : target? j = none) : ∃ known, toNv o s = .ok ({ s with instrs := [j] }, known) := by
  have hBlocks : blocks o .empty s.instrs = .ok ([[j]], Known.empty.observe i) := by
    rw [hInstrs, blocks, hExpand]
    rfl
  exact ⟨_, toNv_plain hBlocks (by simpa using hPlain)⟩

-- A numerator modulo 256 is off by whole turns, which have 32 sixteenths each.
theorem scaled_modulo (hBounds : 0 ≤ d ∧ d ≤ exponent) (n : Int) :
    ∃ turns : ℤ, ((n * Nat.pow 2 (exponent - d).toNat % 256 : ℤ) : ℝ) * Real.pi / 2 ^ 4 =
      n * Real.pi / 2 ^ d + turns * (2 * Real.pi) := by
  refine ⟨-8 * (n * Nat.pow 2 (exponent - d).toNat / 256), ?_⟩
  have hScaled := half_scaled hBounds n
  rw [exponent, half_sixteenths, half] at hScaled
  rw [Int.emod_def, exponent]
  push_cast at hScaled ⊢
  linarith

/-
  A rotation that is mapped for hardware, wherever it stands in a program, is written and read as a
  rotation by sixteenths of pi, and by the same angle up to whole turns. Finer parts of pi and
  multiples of it are refused.
-/
theorem rotation_read_exactly
    (o : Options)
    (hHardware : o.hardware = true)
    (op : Op)
    (hGate : op ∈ [Op.rotX, .rotY, .rotZ])
    (q : Reg)
    (n d : Int)
    (line : Option HostLine)
    (i : Instr)
    (hRotation : i = .op .vanilla op [.reg q, .imm n, .imm d] line)
    (s : Subroutine)
    (hInstrs : s.instrs = [i]) :
    (0 ≤ d ∧ d ≤ 4 → ∃ j bs m, ∃ turns : ℤ, (∀ k, expand o k i = .ok [j]) ∧
      (∃ known, toNv o s = .ok ({ s with instrs := [j] }, known)) ∧ j.encode = .ok bs ∧
      Instr.decode .nv bs =
        .ok (.op .nv op [.reg ⟨q.bank, q.index % 16⟩, .imm m, .imm 4] none) ∧
      m * Real.pi / 2 ^ 4 = n * Real.pi / 2 ^ d + turns * (2 * Real.pi)) ∧
    (¬ (0 ≤ d ∧ d ≤ 4) → ∃ e, (∀ k, expand o k i = .error e) ∧
      toNv o s = .error e ∧ e.category = .badValue) := by
  have hExpand : ∀ k, expand o k i =
      (hardwareAngle i (.imm n) (.imm d)).map fun angle => [.op .nv op (.reg q :: angle) line] := by
    intro k
    rw [hRotation, expand_rotation, rotation, if_pos hHardware]
    rfl
  constructor
  · intro hRange
    have hBounds : 0 ≤ d ∧ d ≤ exponent := hRange
    simp only [hardwareAngle, if_pos hBounds] at hExpand
    rcases Instr.decode_rotation hGate .nv q (n * Nat.pow 2 (exponent - d).toNat) exponent line with
      ⟨bs, hWrite, hRead⟩
    rcases scaled_modulo hBounds n with ⟨turns, hAngle⟩
    refine ⟨_, bs, _, turns, hExpand, toNv_one hInstrs (hExpand _) ?_, hWrite, hRead, hAngle⟩
    simp only [mem_cons, not_mem_nil, or_false] at hGate
    rcases hGate with rfl | rfl | rfl <;> rfl
  · intro hCoarse
    have hBounds : ¬ (0 ≤ d ∧ d ≤ exponent) := hCoarse
    simp only [hardwareAngle, if_neg hBounds] at hExpand
    refine ⟨_, hExpand, ?_, rfl⟩
    simp only [toNv, hInstrs, blocks, hExpand]
    rfl

theorem rotation_read_exactly_backwards :
    let i : Instr := .op .vanilla .rotY [.reg ⟨.q, 0⟩, .imm (-9), .imm 1] none
    ∃ j bs m, ∃ turns : ℤ, (∀ k, expand ⟨false, true⟩ k i = .ok [j]) ∧ j.encode = .ok bs ∧
      Instr.decode .nv bs = .ok (.op .nv .rotY [.reg ⟨.q, 0⟩, .imm m, .imm 4] none) ∧
      m * Real.pi / 2 ^ 4 = (-9 : ℤ) * Real.pi / 2 ^ (1 : ℤ) + turns * (2 * Real.pi) := by
  intro i
  rcases (rotation_read_exactly ⟨false, true⟩ rfl .rotY (by decide) ⟨.q, 0⟩ (-9) 1 none i rfl
    ⟨none, none, [], [i]⟩ rfl).1 (by decide) with ⟨j, bs, m, turns, hMapped, _, hRead⟩
  exact ⟨j, bs, m, turns, hMapped, hRead⟩

end QuantumNode.Mapping

namespace QuantumNode.Gaussian
open Matrix Kronecker Joint Program Exact Circuit
variable {axis : Gate.Axis} {m n : Int} {k : Nat} {op : Op} {Q : Type} (line : Option HostLine)
  (e : Reg)

abbrev Grid2 := Matrix (Fin 2) (Fin 2) GaussianInt

abbrev Grid4 := Matrix (Fin 2 × Fin 2) (Fin 2 × Fin 2) GaussianInt

noncomputable def exact (G : Grid4) : Gate4 := G.map GaussianInt.toComplex

theorem exact_mul (G H : Grid4) : exact (G * H) = exact G * exact H := Matrix.map_mul

theorem exact_one : exact 1 = 1 := Matrix.map_one _ (map_zero _) (map_one _)

-- A rotation with an integer instead of the cosine of half its angle, and sine one.
def bare (axis : Gate.Axis) (c : Int) : Grid2 :=
  match axis with
  | .x => !![⟨c, 0⟩, ⟨0, -1⟩; ⟨0, -1⟩, ⟨c, 0⟩]
  | .y => !![⟨c, 0⟩, ⟨-1, 0⟩; ⟨1, 0⟩, ⟨c, 0⟩]
  | .z => !![⟨c, -1⟩, 0; 0, ⟨c, 1⟩]

theorem turn_eq_bare {x : ℝ} {c : Int} (hCos : (Real.cos x : ℂ) = root ^ k * c)
    (hSin : (Real.sin x : ℂ) = root ^ k) (axis : Gate.Axis) :
    turn axis x = root ^ k • (bare axis c).map GaussianInt.toComplex := by
  ext i j
  cases axis <;> fin_cases i <;> fin_cases j <;>
    simp only [turn, bare, hCos, hSin, Matrix.smul_apply, Matrix.map_apply, Matrix.of_apply,
      Matrix.cons_val_zero, Matrix.cons_val_one, Fin.zero_eta, Fin.mk_one,
        GaussianInt.toComplex_def', map_zero] <;> ring

-- Multiples of a quarter turn: the power of the root, and the integer in `bare`.
inductive Quarters : Int → Nat → Int → Prop
  | one : Quarters 8 1 1
  | two : Quarters 16 0 0
  | three : Quarters 24 1 (-1)

theorem turn_quarters (hQuarters : Quarters n k c) (axis : Gate.Axis) :
    turn axis (half ⟨n, 4⟩) = root ^ k • (bare axis c).map GaussianInt.toComplex := by
  cases hQuarters with
  | one =>
    rw [half_8]
    refine turn_eq_bare ?_ ?_ axis
    · rw [Real.cos_pi_div_four, pow_one, Int.cast_one, mul_one]
      rfl
    · rw [Real.sin_pi_div_four, pow_one]
      rfl
  | two =>
    rw [half_16]
    refine turn_eq_bare ?_ ?_ axis
    · simp
    · simp
  | three =>
    rw [half_24]
    refine turn_eq_bare ?_ ?_ axis
    · rw [cos_three_quarters, pow_one, Complex.ofReal_neg, Int.cast_neg, Int.cast_one, mul_neg_one]
      rfl
    · rw [sin_three_quarters, pow_one]
      rfl

-- The controlled quarter turn about the first axis, without the root.
def forked : Grid4 :=
  fun p p' =>
    if p.1 = p'.1 then
      (if p.1.val = 0 then !![1, ⟨0, -1⟩; ⟨0, -1⟩, 1] else !![1, ⟨0, 1⟩; ⟨0, 1⟩, 1]) p.2 p'.2
    else 0

theorem byBits_controlled : byBits (Gate.controlled .x ⟨8, 4⟩) = root • exact forked := by
  have hBack : rotation .x ⟨-8, 4⟩ = !![root, Complex.I * root; Complex.I * root, root] := by
    have hHalf : half ⟨-8, 4⟩ = -(Real.pi / 4) := by
      rw [half_sixteenths]
      ring
    rw [rotation_eq, hHalf, turn, Real.cos_neg, Real.sin_neg, Real.cos_pi_div_four,
      Real.sin_pi_div_four, Complex.ofReal_neg, neg_mul_neg]
    rfl
  have hForth : rotation .x ⟨8, 4⟩ = !![root, -Complex.I * root; -Complex.I * root, root] := by
    rw [rotation_eq, half_8, turn_x_quarter]
  ext p p'
  rw [Gate.controlled, byBits_either]
  change (if p.1 = p'.1 then
    (if p.1 = 0 then rotation .x ⟨8, 4⟩ p.2 p'.2 else rotation .x ⟨-8, 4⟩ p.2 p'.2) else 0) = _
  rw [hBack, hForth, Matrix.smul_apply, exact, Matrix.map_apply, forked]
  rcases p with ⟨a, b⟩
  rcases p' with ⟨c, d⟩
  fin_cases a <;> fin_cases b <;> fin_cases c <;> fin_cases d <;>
    simp [GaussianInt.toComplex_def', mul_comm]

---- Circuits

-- An instruction has, on the qubits of two registers, a power of the root times a matrix of
-- Gaussian integers, and it is no gate of generic hardware.
def Draws (c : Reg) (i : Instr) (drawn : Nat × Grid4) : Prop :=
  Mapping.family? i ≠ some .vanilla ∧ ∀ {Q : Type} [DecidableEq Q] (place : Int → Q)
    (held : Addresses), place (held e) ≠ place (held c) → step? place fixed? held i =
        some (held, root ^ drawn.1 • onPair (place (held e)) (place (held c)) (exact drawn.2))

-- The product of matrices, the first of which acts first.
def drawing : List (Nat × Grid4) → Nat × Grid4
  | [] => (0, 1)
  | (k, G) :: rest => ((drawing rest).1 + k, (drawing rest).2 * G)

theorem onPair_one [DecidableEq Q] (q r : Q) : onPair q r 1 = 1 := by
  refine LinearMap.ext fun ψ => funext fun b => ?_
  rw [onPair_apply, Finset.sum_eq_single (b q, b r)]
  · simp [put]
  · intro p _ hOther
    simp [Matrix.one_apply_ne hOther.symm]
  · exact fun hAbsent => absurd (Finset.mem_univ _) hAbsent

theorem run?_draws {e c : Reg} {is : List Instr} {drawn : List (Nat × Grid4)}
    (hDraws : Forall₂ (Draws e c) is drawn) [DecidableEq Q] (place : Int → Q) (held : Addresses)
    (hApart : place (held e) ≠ place (held c)) :
    run? place fixed? held is = some (held, root ^ (drawing drawn).1 •
        onPair (place (held e)) (place (held c)) (exact (drawing drawn).2)) := by
  induction hDraws with
  | nil => simp [run?, drawing, exact_one, onPair_one]
  | cons hFirst _ ih =>
    simp only [run?, hFirst.2 place held hApart, Option.bind_some, ih, Option.map_some, drawing,
      smul_mul_smul_comm, onPair_mul hApart, exact_mul, pow_add]

variable {line e}

theorem draws_note (words : String) : Draws e c (.note words) (0, 1) := by
  refine ⟨by rintro ⟨⟩, ?_⟩
  intro Q _ _ _ _
  rw [pow_zero, one_smul, exact_one, onPair_one]
  rfl

theorem exact_kronecker (G H : Grid2) :
    exact (G ⊗ₖ H) = G.map GaussianInt.toComplex ⊗ₖ H.map GaussianInt.toComplex := by
  ext p p'
  simp [exact]

theorem step?_turns [DecidableEq Q] (hAxis : Gate.axis? op = some axis) (hQuarters : Quarters n k m)
    (place : Int → Q) :
    step? place fixed? held (rot line op q n) =
      some (held, root ^ k • on (place (held q)) ((bare axis m).map GaussianInt.toComplex)) := by
  rw [← on_smul, ← turn_quarters hQuarters]
  exact Mapping.step?_rot hAxis

theorem draws_first (hAxis : Gate.axis? op = some axis) (hQuarters : Quarters n k m) :
    Draws e c (rot line op e n) (k, bare axis m ⊗ₖ 1) := by
  refine ⟨by rintro ⟨⟩, ?_⟩
  intro Q _ _ _ hApart
  rw [step?_turns hAxis hQuarters, on_left hApart, exact_kronecker,
    Matrix.map_one _ (map_zero _) (map_one _)]

theorem draws_second (hAxis : Gate.axis? op = some axis) (hQuarters : Quarters n k m) :
    Draws e c (rot line op c n) (k, 1 ⊗ₖ bare axis m) := by
  refine ⟨by rintro ⟨⟩, ?_⟩
  intro Q _ place held _
  rw [step?_turns hAxis hQuarters, on_right (q := place (held e)), exact_kronecker,
    Matrix.map_one _ (map_zero _) (map_one _)]

theorem draws_crot : Draws e c (crot line .crotX e c 8) (1, forked) := by
  refine ⟨by rintro ⟨⟩, ?_⟩
  intro Q _ _ _ _
  rw [pow_one, ← onPair_smul, ← byBits_controlled]
  rfl

---- The circuits for gates on two qubits

-- The controlled negation, the controlled phase and the exchange.
def negation : Grid4 := fun p p' => if p.1 = p'.1 ∧ (p.2 = p'.2 ↔ p.1.val = 0) then 1 else 0

def phase : Grid4 := fun p p' => if p = p' then (if p.1.val = 1 ∧ p.2.val = 1 then -1 else 1) else 0

def exchanged : Grid4 := fun p p' => if p = p'.swap then 1 else 0

def cnotDrawing : List (Nat × Grid4) :=
  [(1, forked), (1, bare .z (-1) ⊗ₖ 1), (1, 1 ⊗ₖ bare .x (-1))]

def cphaseDrawing : List (Nat × Grid4) :=
  [(1, 1 ⊗ₖ bare .y 1), (1, forked), (1, bare .z (-1) ⊗ₖ 1), (1, 1 ⊗ₖ bare .x (-1)),
    (1, 1 ⊗ₖ bare .y (-1))]

def hadamardDrawing : List (Nat × Grid4) := [(1, bare .y 1 ⊗ₖ 1), (0, bare .x 0 ⊗ₖ 1)]

def swapDrawing : List (Nat × Grid4) :=
  [(1, forked), (1, bare .x (-1) ⊗ₖ 1), (0, bare .y 0 ⊗ₖ 1), (1, 1 ⊗ₖ bare .z (-1)),
    (1, forked), (1, bare .x 1 ⊗ₖ 1), (1, bare .y 1 ⊗ₖ 1), (1, 1 ⊗ₖ bare .x 1),
    (1, 1 ⊗ₖ bare .z 1), (1, forked), (0, bare .y 0 ⊗ₖ 1), (0, 1 ⊗ₖ bare .z 0)]

theorem drawing_cnot : drawing cnotDrawing = (3, (⟨2, 2⟩ : GaussianInt) • negation) := by
  decide +kernel

theorem drawing_cphase : drawing cphaseDrawing = (5, (⟨-4, -4⟩ : GaussianInt) • phase) := by
  decide +kernel

theorem drawing_carbonCnot :
    drawing (hadamardDrawing ++ cphaseDrawing ++ hadamardDrawing) =
      (7, (⟨8, 8⟩ : GaussianInt) • negation.submatrix Prod.swap Prod.swap) := by
  decide +kernel

theorem drawing_swap : drawing swapDrawing = (9, (⟨16, 16⟩ : GaussianInt) • exchanged) := by
  decide +kernel

theorem norm_root_pow {z : GaussianInt} (hNorm : z.norm = 2 ^ k) :
    ‖root ^ k * GaussianInt.toComplex z‖ = 1 := by
  have hSquare : ‖root ^ k * GaussianInt.toComplex z‖ ^ 2 = 1 := by
    rw [Complex.sq_norm, Complex.normSq_mul, map_pow, normSq_root, ← GaussianInt.intCast_real_norm,
      hNorm]
    push_cast
    rw [← mul_pow]
    norm_num
  exact (pow_eq_one_iff_of_nonneg (norm_nonneg _) two_ne_zero).mp hSquare

theorem draws_cnot : Forall₂ (Draws e c) (electronCnot line e c) cnotDrawing :=
  .cons draws_crot (.cons (draws_first rfl .three) (.cons (draws_second rfl .three) .nil))

theorem draws_cphase : Forall₂ (Draws e c) (electronCphase line e c) cphaseDrawing :=
  .cons (draws_second rfl .one) (.cons draws_crot (.cons (draws_first rfl .three)
    (.cons (draws_second rfl .three) (.cons (draws_second rfl .three) .nil))))

theorem draws_swap (debug : Bool) (line : Option HostLine) (e c : Reg) :
    ∃ drawn, Forall₂ (Draws e c) (swap debug line e c) drawn ∧
      drawing drawn = drawing swapDrawing := by
  have hSwap : Forall₂ (Draws e c) (swap false line e c) swapDrawing :=
    .cons draws_crot (.cons (draws_first rfl .three) (.cons (draws_first rfl .two)
      (.cons (draws_second rfl .three) (.cons draws_crot (.cons (draws_first rfl .one)
        (.cons (draws_first rfl .one) (.cons (draws_second rfl .one) (.cons (draws_second rfl .one)
          (.cons draws_crot (.cons (draws_first rfl .two) (.cons (draws_second rfl .two) .nil)))))))))))
  cases debug with
  | false => exact ⟨swapDrawing, hSwap, rfl⟩
  | true =>
    refine ⟨(0, 1) :: (swapDrawing ++ [(0, 1)]), ?_, by decide +kernel⟩
    exact .cons (draws_note _) (List.rel_append hSwap (.cons (draws_note _) .nil))

theorem gates?_exact :
    (Gate.fixedPair? .cnot : Option (Square 4 ℂ)).map byBits = some (exact negation) ∧
      (Gate.fixedPair? .cphase : Option (Square 4 ℂ)).map byBits = some (exact phase) := by
  refine ⟨congrArg some ?_, congrArg some ?_⟩
  all_goals
    ext p p'
    rw [byBits_either]
    rcases p with ⟨a, b⟩
    rcases p' with ⟨c, d⟩
    fin_cases a <;> fin_cases b <;> fin_cases c <;> fin_cases d <;> simp [exact, negation, phase,
      Gate.identity, Gate.square2, Amplitude.zero, Amplitude.one, Amplitude.neg]

theorem exact_exchanged : exact exchanged = exchange := by
  ext p p'
  by_cases hSwapped : p = p'.swap <;> simp [exact, exchanged, exchange]

end QuantumNode.Gaussian

namespace QuantumNode.Mapping
variable {held' : Addresses} {circuit is : List Instr} {line : Option HostLine}
  {a b c e r : Reg}

open Program Joint Exact Gaussian
variable {held : Addresses} {M : Gate4} {i : Instr} {k : Known} {block : List Instr} {op : Op}
  {o : Options} {addresses : Set Int}

---- Circuits with the electron

-- A circuit on two registers has the operator of a matrix up to a phase.
structure Performs (circuit : List Instr) (e c : Reg) (M : Gate4) : Prop where
  native : Native circuit
  runs : ∀ (Q : Type) [DecidableEq Q] (place : Int → Q) (held : Addresses),
      place (held e) ≠ place (held c) → ∃ V, run? place fixed? held circuit = some (held, V) ∧
          SamePhase V (onPair (place (held e)) (place (held c)) M)

-- A gate on two qubits with its circuits: for an electron as the first qubit, and for one as the
-- second.
structure Carried (op : Op) (M : Gate4)
    (direct reverse : Option HostLine → Reg → Reg → List Instr) : Prop where
  gate : (Gate.fixedPair? op : Option (Square 4 ℂ)).map byBits = some M
  direct : ∀ line e c, Performs (direct line e c) e c M
  reverse : ∀ line e c, Performs (reverse line e c) e c (M.submatrix Prod.swap Prod.swap)

theorem performs_drawn {drawn : List (Nat × Grid4)} {k : Nat} {z : GaussianInt} {G : Grid4}
    (hDraws : Forall₂ (Draws e c) circuit drawn) (hDrawing : drawing drawn = (k, z • G))
    (hNorm : z.norm = 2 ^ k) : Performs circuit e c (exact G) where
  native := ((forall₂_and_left _ _).mp hDraws).1
  runs _ _ place held hApart := by
    refine ⟨_, run?_draws hDraws place held hApart, _, norm_root_pow hNorm, ?_⟩
    have hScaled : exact (z • G) = GaussianInt.toComplex z • exact G := by
      ext p p'
      simp [exact]
    rw [hDrawing, hScaled, onPair_smul, smul_smul]

theorem carried_cnot : Carried .cnot (exact negation) Circuit.electronCnot Circuit.carbonCnot where
  gate := gates?_exact.1
  direct line e c := performs_drawn draws_cnot drawing_cnot (by decide)
  reverse line e c := by
    have hHadamard : Forall₂ (Draws e c) (Circuit.hadamard line e) hadamardDrawing :=
      .cons (draws_first rfl .one) (.cons (draws_first rfl .two) .nil)
    exact performs_drawn (List.rel_append (List.rel_append hHadamard draws_cphase) hHadamard)
      drawing_carbonCnot (by decide)

theorem carried_cphase :
    Carried .cphase (exact phase) Circuit.electronCphase Circuit.electronCphase where
  gate := gates?_exact.2
  direct line e c := performs_drawn draws_cphase drawing_cphase (by decide)
  reverse line e c := by
    have hSymmetric : phase.submatrix Prod.swap Prod.swap = phase := by decide +kernel
    change Performs _ _ _ (exact (phase.submatrix Prod.swap Prod.swap))
    rw [hSymmetric]
    exact performs_drawn draws_cphase drawing_cphase (by decide)

theorem performs_swap (debug : Bool) (line : Option HostLine) (e c : Reg) :
    Performs (Circuit.swap debug line e c) e c exchange := by
  rcases draws_swap debug line e c with ⟨_, hDraws, hDrawing⟩
  rw [← exact_exchanged]
  exact performs_drawn hDraws (hDrawing.trans drawing_swap) (by decide)

theorem run?_viaElectron {Q : Type} [DecidableEq Q] {place : Int → Q} {t : Reg} (debug : Bool)
    (line : Option HostLine) (hCircuit : Performs circuit e t M)
    (hFirst : place (held e) ≠ place (held c)) (hSecond : place (held e) ≠ place (held t))
    (hThird : place (held c) ≠ place (held t)) :
    ∃ V, run? place fixed? held
          (Circuit.swap debug line e c ++ circuit ++ Circuit.swap debug line e c) =
        some (held, V) ∧
      SamePhase V (onPair (place (held c)) (place (held t)) M) := by
  rcases (performs_swap debug line e c).runs Q place held hFirst with ⟨S, hSwap, hExchange⟩
  rcases hCircuit.runs Q place held hSecond with ⟨V, hRun, hGate⟩
  refine ⟨S * V * S, ?_, ?_⟩
  · simp [run?_append, hSwap, hRun]
  · rw [← exchange_conj hFirst hSecond hThird]
    exact (hExchange.mul hGate).mul hExchange

-- What is known about registers is true of their contents, is about registers that occur, and lies
-- among given addresses.
structure Knows (k : Known) (addresses : Set Int) (held : Addresses) : Prop where
  holds : ∀ {r v}, k.value? r = some v → held r = v
  occurs : ∀ {r v}, k.value? r = some v → r ∈ k.used
  among : ∀ {r v}, k.value? r = some v → v ∈ addresses

theorem knows_empty (addresses : Set Int) (held : Addresses) : Knows .empty addresses held := by
  constructor <;> rintro r v ⟨⟩

section
variable (hKnows : Knows k addresses held)
include hKnows
-- A register that does not occur may hold anything.
theorem Knows.update (hUnused : r ∉ k.used) (v : Int) :
    Knows k addresses (Function.update held r v) where
  holds := by
    intro r' _ hValue
    have hOther : r' ≠ r := fun hSame => hUnused (hSame ▸ hKnows.occurs hValue)
    rw [Function.update_of_ne hOther]
    exact hKnows.holds hValue
  occurs := hKnows.occurs
  among := hKnows.among

theorem Knows.observe_gate (hGate : Known.assign? i = none) :
    Knows (k.observe i) addresses held := by
  have hValue : ∀ r, (k.observe i).value? r = k.value? r := by
    simp [Known.observe, Known.value?, hGate]
  exact ⟨fun h => hKnows.holds ((hValue _).symm.trans h),
    fun h => mem_append_left _ (hKnows.occurs ((hValue _).symm.trans h)),
    fun h => hKnows.among ((hValue _).symm.trans h)⟩

theorem Knows.observe_set (hBank : r.bank = .q) (hAmong : v ∈ addresses) (line : Option HostLine) :
    Knows (k.observe (.op .core .set [.reg r, .imm v] line)) addresses
      (Function.update held r v) := by
  have hAssign : Known.assign? (.op .core .set [.reg r, .imm v] line) = some (r, v) := if_pos hBank
  have hEach : ∀ {q x}, (k.observe (.op .core .set [.reg r, .imm v] line)).value? q = some x →
      Function.update held r v q = x ∧ x ∈ addresses ∧
        q ∈ (k.observe (.op .core .set [.reg r, .imm v] line)).used := by
    intro q x hValue
    simp only [Known.observe, Known.value?, hAssign] at hValue
    by_cases hSame : q = r
    · subst hSame
      rw [Table.get?_put_self] at hValue
      cases hValue
      exact ⟨Function.update_self _ _ _, hAmong,
        mem_append_right _ (by simp [Instr.operands, Operand.reg?])⟩
    · rw [Table.get?_put_of_ne hSame] at hValue
      exact ⟨(Function.update_of_ne hSame _ _).trans (hKnows.holds hValue), hKnows.among hValue,
        mem_append_left _ (hKnows.occurs hValue)⟩
  exact ⟨fun h => (hEach h).1, fun h => (hEach h).2.2, fun h => (hEach h).2.1⟩

end

theorem twoQubit_placed (hGate : op = .cnot ∨ op = .cphase)
    (hBlock : twoQubit o k op a b line = .ok block) :
    ∃ M direct reverse x y, Carried op M direct reverse ∧
      k.value? a = some x ∧ k.value? b = some y ∧ x ≠ y ∧
      Placed o k direct reverse line a b x y block := by
  have hNot : op ≠ .mov := by rcases hGate with rfl | rfl <;> decide
  rcases twoQubit_known hNot hBlock with
    ⟨x, y, hFirst, hSecond, hApart, ⟨rfl, hPlaced⟩ | ⟨rfl, hPlaced⟩⟩
  · exact ⟨_, _, _, x, y, carried_cnot, hFirst, hSecond, hApart, hPlaced⟩
  · exact ⟨_, _, _, x, y, carried_cphase, hFirst, hSecond, hApart, hPlaced⟩

section Runs
variable {Q : Type} [DecidableEq Q]
variable {place : Int → Q}

theorem run?_placed {direct reverse : Option HostLine → Reg → Reg → List Instr} {x y : Int}
    (hInjective : Set.InjOn place addresses) (hElectron : 0 ∈ addresses)
    (hCarried : Carried op M direct reverse) (hKnows : Knows k addresses held)
    (hFirst : k.value? a = some x) (hSecond : k.value? b = some y) (hApart : x ≠ y)
    (hPlaced : Placed o k direct reverse line a b x y block) :
    Native block ∧ ∃ held' V, run? place fixed? held block = some (held', V) ∧
      SamePhase V (onPair (place x) (place y) M) ∧ Knows k addresses held' := by
  have hDiffer : ∀ {u v}, u ∈ addresses → v ∈ addresses → u ≠ v → place u ≠ place v :=
    fun hu hv hNot hSame => hNot (hInjective hu hv hSame)
  have hPlaces : place x ≠ place y := hDiffer (hKnows.among hFirst) (hKnows.among hSecond) hApart
  cases hPlaced with
  | first _ =>
    rcases (hCarried.direct line a b).runs Q place held
        (by rwa [hKnows.holds hFirst, hKnows.holds hSecond]) with ⟨V, hRun, hSame⟩
    rw [hKnows.holds hFirst, hKnows.holds hSecond] at hSame
    exact ⟨(hCarried.direct line a b).native, held, V, hRun, hSame, hKnows⟩
  | second _ =>
    rcases (hCarried.reverse line b a).runs Q place held
        (by rw [hKnows.holds hFirst, hKnows.holds hSecond]; exact hPlaces.symm) with
      ⟨V, hRun, hSame⟩
    rw [hKnows.holds hFirst, hKnows.holds hSecond, onPair_swap hPlaces] at hSame
    exact ⟨(hCarried.reverse line b a).native, held, V, hRun, hSame, hKnows⟩
  | @neither e hNotFirst hNotSecond hUnused =>
    -- The scratch register holds the electron; the gate's registers still hold what is known.
    have hKnows' := hKnows.update (unused?_not_mem hUnused) 0
    have hAtE : Function.update held e 0 e = 0 := Function.update_self _ _ _
    have hAtA := hKnows'.holds hFirst
    have hAtB := hKnows'.holds hSecond
    have hFromA : place (Function.update held e 0 e) ≠ place (Function.update held e 0 a) := by
      rw [hAtE, hAtA]
      exact hDiffer hElectron (hKnows.among hFirst) hNotFirst.symm
    have hFromB : place (Function.update held e 0 e) ≠ place (Function.update held e 0 b) := by
      rw [hAtE, hAtB]
      exact hDiffer hElectron (hKnows.among hSecond) hNotSecond.symm
    rcases run?_viaElectron o.debug line (hCarried.direct line e b) hFromA hFromB
      (by rwa [hAtA, hAtB]) with ⟨V, hRun, hSame⟩
    rw [hAtA, hAtB] at hSame
    have hSwap := (performs_swap o.debug line e a).native
    refine ⟨forall_mem_cons.mpr ⟨by rintro ⟨⟩, forall_mem_append.mpr ⟨forall_mem_append.mpr
      ⟨hSwap, (hCarried.direct line e b).native⟩, hSwap⟩⟩, _, V, ?_, hSame, hKnows'⟩
    simp only [run?, step?, assigned?, Option.bind_some, hRun, Option.map_some, mul_one]

---- Programs

def Paired : Instr → Prop
  | .op .core .set [.reg r, .imm _] _ => r.bank = .q
  | .op .vanilla op [.reg _, .reg _] _ => op = .cnot ∨ op = .cphase
  | _ => False

def addressesOf (is : List Instr) : Set Int :=
  {v | v = 0 ∨ ∃ r line, .op .core .set [.reg r, .imm v] line ∈ is}

theorem expand_paired (hInjective : Set.InjOn place addresses)
    (hAddresses : addressesOf [i] ⊆ addresses) (hPaired : Paired i)
    (hBlock : expand o (k.observe i) i = .ok block) (hKnows : Knows k addresses held)
    (hKnows' : Knows k addresses held') :
    Native block ∧ ∃ after after' U V, step? place fixed? held i = some (after, U) ∧
      run? place fixed? held' block = some (after', V) ∧ SamePhase V U ∧
      Knows (k.observe i) addresses after ∧ Knows (k.observe i) addresses after' := by
  unfold Paired at hPaired
  split at hPaired
  · rename_i r v line
    cases hBlock
    have hAmong : v ∈ addresses := hAddresses (.inr ⟨r, line, mem_singleton_self _⟩)
    exact ⟨by simp [Native, family?], _, _, _, _, rfl, run?_single held' _, SamePhase.refl _,
      hKnows.observe_set hPaired hAmong line, hKnows'.observe_set hPaired hAmong line⟩
  · rename_i op a b line
    have hNone : Known.assign? (.op .vanilla op [.reg a, .reg b] line) = none := by
      rcases hPaired with rfl | rfl <;> rfl
    have hSeen := hKnows.observe_gate hNone
    have hSeen' := hKnows'.observe_gate hNone
    rcases twoQubit_placed hPaired hBlock with
      ⟨M, _, _, x, y, hCarried, hFirst, hSecond, hApart, hPlaced⟩
    rcases run?_placed hInjective (hAddresses (.inl rfl)) hCarried hSeen' hFirst hSecond hApart
      hPlaced with ⟨hNative, after', V, hRun, _, hAfter⟩
    have hStep : step? place fixed? held (.op .vanilla op [.reg a, .reg b] line) =
        some (held, onPair (place (held a)) (place (held b)) M) := by
      have hPlain : assigned? op [.reg a, .reg b] = none := by rcases hPaired with rfl | rfl <;> rfl
      rcases Option.map_eq_some_iff.mp hCarried.gate with ⟨m, hFixed, rfl⟩
      simp [step?, hPlain, gate?, hFixed]
    refine ⟨hNative, held, after', _, V, hStep, hRun, ?_, hSeen, hAfter⟩
    rwa [hSeen.holds hFirst, hSeen.holds hSecond]
  · exact hPaired.elim

theorem blocks_paired (hInjective : Set.InjOn place addresses)
    (hAddresses : addressesOf is ⊆ addresses) (hPaired : ∀ i ∈ is, Paired i)
    (hBlocks : blocks o k is = .ok (bs, known)) (hKnows : Knows k addresses held)
    (hKnows' : Knows k addresses held') :
    Native bs.flatten ∧ ∃ after after' U V, run? place fixed? held is = some (after, U) ∧
      run? place fixed? held' bs.flatten = some (after', V) ∧ SamePhase V U := by
  induction is generalizing k bs held held' with
  | nil =>
    cases hBlocks
    exact ⟨forall_mem_nil _, held, held', 1, 1, rfl, rfl, SamePhase.refl _⟩
  | cons i rest ih =>
    rcases blocks_cons hBlocks with ⟨block, others, hBlock, hRest, rfl⟩
    have hPart : ∀ part ⊆ i :: rest, addressesOf part ⊆ addresses := by
      rintro part hPart v (rfl | ⟨r, line, hMember⟩)
      · exact hAddresses (.inl rfl)
      · exact hAddresses (.inr ⟨r, line, hPart hMember⟩)
    rcases expand_paired hInjective (hPart [i] (by simp)) (hPaired i mem_cons_self) hBlock hKnows
      hKnows' with ⟨hHere, mid, mid', U₁, V₁, hStep, hRun, hFirst, hSeen, hSeen'⟩
    rcases ih (hPart rest (subset_cons_self _ _)) (fun j hj => hPaired j (mem_cons_of_mem _ hj)) hRest hSeen
      hSeen' with ⟨hNative, after, after', U₂, V₂, hStep₂, hRun₂, hLater⟩
    refine ⟨forall_mem_append.mpr ⟨hHere, hNative⟩, after, after', U₂ * U₁, V₂ * V₁, ?_, ?_,
      hLater.mul hFirst⟩
    · simp [run?, hStep, hStep₂]
    · rw [flatten_cons, run?_append, hRun, Option.bind_some, hRun₂, Option.map_some]

end Runs

-- If a program of controlled gates is mapped, no gates of generic hardware are left, and the product
-- of the rotations is up to a phase the product of the gates, on any qubits on which the addresses of
-- the program differ.
theorem toNv_paired
    (o : Options)
    (s mapped : Subroutine)
    (known : Known)
    (hPaired : ∀ i ∈ s.instrs, Paired i)
    (hMapped : toNv o s = .ok (mapped, known))
    (Q : Type)
    [DecidableEq Q]
    (place : Int → Q)
    (hInjective : Set.InjOn place (addressesOf s.instrs))
    (held : Addresses) :
    Native mapped.instrs ∧ ∃ after after' U V, run? place fixed? held s.instrs = some (after, U) ∧
      run? place fixed? held mapped.instrs = some (after', V) ∧ SamePhase V U := by
  cases hBlocks : blocks o .empty s.instrs with
  | error fault =>
    simp only [toNv, hBlocks] at hMapped
    cases hMapped
  | ok built =>
    rcases blocks_paired hInjective subset_rfl hPaired hBlocks (knows_empty _ held)
      (knows_empty _ held) with ⟨hNative, after, after', U, V, hRun, hRun', hSame⟩
    rw [toNv_plain hBlocks (target?_of_run? hRun')] at hMapped
    cases hMapped
    exact ⟨hNative, after, after', U, V, hRun, hRun', hSame⟩

-- Controlled gates from the electron, to it and between carbons.
def gathered : Subroutine := ⟨none, some 0, [], [
  core .set [.reg ⟨.q, 0⟩, .imm 0],
  core .set [.reg ⟨.q, 1⟩, .imm 3],
  core .set [.reg ⟨.q, 2⟩, .imm 7],
  .op .vanilla .cnot [.reg ⟨.q, 0⟩, .reg ⟨.q, 1⟩] none,
  .op .vanilla .cphase [.reg ⟨.q, 1⟩, .reg ⟨.q, 2⟩] none,
  core .set [.reg ⟨.q, 2⟩, .imm 5],
  .op .vanilla .cnot [.reg ⟨.q, 2⟩, .reg ⟨.q, 0⟩] none,
  .op .vanilla .cnot [.reg ⟨.q, 2⟩, .reg ⟨.q, 1⟩] none]⟩

theorem toNv_paired_gathered :
    (∀ i ∈ gathered.instrs, Paired i) ∧ Set.InjOn (id : Int → Int) (addressesOf gathered.instrs) ∧
      ∃ mapped known, toNv ⟨false, false⟩ gathered = .ok (mapped, known) ∧
        Native mapped.instrs ∧ ∃ after after' U V,
          run? id fixed? (fun _ => 0) gathered.instrs = some (after, U) ∧
          run? id fixed? (fun _ => 0) mapped.instrs = some (after', V) ∧ SamePhase V U := by
  have hPaired : ∀ i ∈ gathered.instrs, Paired i := by
    simp [gathered, Paired]
  have hInjective : Set.InjOn (id : Int → Int) (addressesOf gathered.instrs) :=
    Function.injective_id.injOn
  rcases Checked.of_isOk (x := toNv ⟨false, false⟩ gathered) (by decide +kernel) with ⟨made, hMapped⟩
  exact ⟨hPaired, hInjective, made.1, made.2, hMapped,
    toNv_paired ⟨false, false⟩ gathered made.1 made.2 hPaired hMapped Int id hInjective
      fun _ => 0⟩

end QuantumNode.Mapping
