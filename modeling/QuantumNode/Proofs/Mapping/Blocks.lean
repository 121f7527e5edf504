import QuantumNode.Mapping.Nv
import QuantumNode.Proofs.Subroutine.RoundTrip

/-
  What the block for an instruction is made of, where the blocks of a mapped subroutine are, and
  where its branches lead.
-/

open List

namespace QuantumNode
open Circuit
variable {i : Instr} {x y : Int} {rs rs' : List Reg} {d n : Operand}
  {direct reverse : Option HostLine → Reg → Reg → List Instr}

variable {k : Known} {block js : List Instr} {op : Op} {line : Option HostLine} {o : Options}
  {a b q : Reg}

namespace Mapping

def family? : Instr → Option Family
  | .op family _ _ _ => some family
  | .note _ => none

-- No gates of generic hardware are left.
def Native (is : List Instr) : Prop := ∀ j ∈ is, family? j ≠ some .vanilla

---- Circuits

-- The registers of the qubits that a rotation by a fixed angle is about.
def pulse? : Instr → Option (List Reg)
  | .op .nv op [.reg q, .imm n, .imm d] _ =>
    if op ∈ [Op.rotX, .rotY, .rotZ] ∧ 0 ≤ n ∧ n < 32 ∧ d = exponent then some [q] else none
  | .op .nv op [.reg e, .reg c, .imm n, .imm d] _ =>
    if op ∈ [Op.crotX, .crotY] ∧ 0 ≤ n ∧ n < 32 ∧ d = exponent then some [e, c] else none
  | _ => none

-- A circuit that is about the qubits of exactly some registers.
structure Plays (rs : List Reg) (js : List Instr) : Prop where
  pulses : ∃ qss : List (List Reg), js.map pulse? = qss.map some ∧ ∀ r, r ∈ qss.flatten ↔ r ∈ rs
  nonempty : js ≠ []

namespace Plays

theorem append (hFirst : Plays rs js) (hThen : Plays rs' js') : Plays (rs ++ rs') (js ++ js') := by
  rcases hFirst.pulses with ⟨qss, hPulses, hRegs⟩
  rcases hThen.pulses with ⟨qss', hPulses', hRegs'⟩
  refine ⟨⟨qss ++ qss', ?_, fun r => ?_⟩, ?_⟩
  · rw [map_append, map_append, hPulses, hPulses']
  · rw [flatten_append, mem_append, mem_append, hRegs, hRegs']
  · simp [hFirst.nonempty]

-- Which registers there are does not depend on how they are listed.
theorem mono (hPlays : Plays rs js) (hSame : ∀ r, r ∈ rs ↔ r ∈ rs') : Plays rs' js := by
  rcases hPlays.pulses with ⟨qss, hPulses, hRegs⟩
  exact ⟨⟨qss, hPulses, fun r => (hRegs r).trans (hSame r)⟩, hPlays.nonempty⟩

theorem single (hCircuit : single line q op = some js) : Plays [q] js := by
  cases op with
  | x | y => cases hCircuit; exact ⟨⟨[[q]], rfl, by simp⟩, cons_ne_nil _ _⟩
  | h | k => cases hCircuit; exact ⟨⟨[[q], [q]], rfl, by simp⟩, cons_ne_nil _ _⟩
  | z | s | t => cases hCircuit; exact ⟨⟨[[q], [q], [q]], rfl, by simp⟩, cons_ne_nil _ _⟩
  | _ => cases hCircuit

variable (line : Option HostLine) (e c : Reg)

theorem electronCnot : Plays [e, c] (electronCnot line e c) :=
  ⟨⟨[[e, c], [e], [c]], rfl, fun r => by simp; tauto⟩, cons_ne_nil _ _⟩

theorem electronCphase : Plays [e, c] (electronCphase line e c) :=
  ⟨⟨[[c], [e, c], [e], [c], [c]], rfl, fun r => by simp; tauto⟩, cons_ne_nil _ _⟩

theorem carbonCnot : Plays [e, c] (carbonCnot line e c) := by
  have hHadamard : Plays [e] (hadamard line e) := ⟨⟨[[e], [e]], rfl, by simp⟩, cons_ne_nil _ _⟩
  exact ((hHadamard.append (electronCphase line e c)).append hHadamard).mono fun r => by simp; tauto

theorem moveOut : Plays [e, c] (moveOut line e c) :=
  ⟨⟨[[e], [e, c], [e], [e, c]], rfl, fun r => by simp; tauto⟩, cons_ne_nil _ _⟩

theorem moveIn : Plays [e, c] (moveIn line e c) :=
  ⟨⟨[[e], [e, c], [e], [e, c], [e], [e]], rfl, fun r => by simp; tauto⟩, cons_ne_nil _ _⟩

theorem swap : Plays [e, c] (swap false line e c) :=
  ⟨⟨[[e, c], [e], [e], [c], [e, c], [e], [e], [c], [c], [e, c], [e], [c]], rfl,
    fun r => by simp; tauto⟩, cons_ne_nil _ _⟩

end Plays

-- The circuits for a gate on two registers: the electron is the first qubit, the second one, or
-- neither of them.
inductive Placed (o : Options) (k : Known)
    (direct reverse : Option HostLine → Reg → Reg → List Instr) (line : Option HostLine) (a b : Reg)
    (x y : Int) : List Instr → Prop
  | first : x = 0 → Placed o k direct reverse line a b x y (direct line a b)
  | second : y = 0 → Placed o k direct reverse line a b x y (reverse line b a)
  | neither {e : Reg} : x ≠ 0 → y ≠ 0 → k.unused? = some e → Placed o k direct reverse line a b x y
          (.op .core .set [.reg e, .imm 0] line ::
            (swap o.debug line e a ++ direct line e b ++ swap o.debug line e a))

theorem placed_of_ok
    (hBlock : (if x = 0 then .ok (direct line a b) else if y = 0 then .ok (reverse line b a)
        else viaElectron o k a line fun e => direct line e b) = (.ok block : Checked (List Instr))) :
    Placed o k direct reverse line a b x y block := by
  by_cases hFirst : x = 0
  · rw [if_pos hFirst] at hBlock
    cases hBlock
    exact .first hFirst
  by_cases hSecond : y = 0
  · rw [if_neg hFirst, if_pos hSecond] at hBlock
    cases hBlock
    exact .second hSecond
  · rw [if_neg hFirst, if_neg hSecond, viaElectron] at hBlock
    split at hBlock
    · cases hBlock
    · rename_i e hUnused
      cases hBlock
      exact .neither hFirst hSecond hUnused

-- A controlled gate is mapped only between different known addresses.
theorem twoQubit_known (hGate : op ≠ .mov) (hBlock : twoQubit o k op a b line = .ok block) :
    ∃ x y, k.value? a = some x ∧ k.value? b = some y ∧ x ≠ y ∧ ((op = .cnot ∧
          Placed o k electronCnot carbonCnot line a b x y block) ∨
        (op = .cphase ∧ Placed o k electronCphase electronCphase line a b x y block)) := by
  unfold twoQubit at hBlock
  split at hBlock
  · rename_i x y hFirst hSecond
    by_cases hSame : x = y
    · rw [if_pos hSame] at hBlock
      cases hBlock
    · rw [if_neg hSame] at hBlock
      refine ⟨x, y, hFirst, hSecond, hSame, ?_⟩
      cases op with
      | cnot => exact .inl ⟨rfl, placed_of_ok hBlock⟩
      | cphase => exact .inr ⟨rfl, placed_of_ok hBlock⟩
      | mov => exact absurd rfl hGate
      | _ => cases hBlock
  · rw [if_neg hGate] at hBlock
    cases hBlock

theorem twoQubit_mov (hBlock : twoQubit o k .mov a b line = .ok block) :
    block = moveOut line a b ∨ block = moveIn line b a := by
  unfold twoQubit at hBlock
  split at hBlock
  · split at hBlock
    · cases hBlock
    · dsimp only at hBlock
      split at hBlock
      · cases hBlock
        exact .inl rfl
      · split at hBlock
        · cases hBlock
          exact .inr rfl
        · cases hBlock
  · cases hBlock
    exact .inl rfl

theorem unused?_not_mem {e : Reg} (hUnused : k.unused? = some e) : e ∉ k.used := by
  simpa using find?_some hUnused

-- The registers of the qubits that a gate without an angle is about.
def touches? : Instr → Option (List Reg)
  | .op .vanilla op [.reg q] _ => if op ∈ [Op.x, .y, .z, .h, .s, .k, .t] then some [q] else none
  | .op .vanilla op [.reg a, .reg b] _ =>
    if op ∈ [Op.cnot, .cphase, .mov] then some [a, b] else none
  | _ => none

-- Angles of which both can be computed, or none for causes of one category.
inductive SameCheck : Checked Angle → Checked Angle → Prop
  | both {a b : Angle} : SameCheck (.ok a) (.ok b)
  | neither {e f : Fault} : f.category = e.category → SameCheck (.error e) (.error f)

/-
  Blocks for instructions: what belongs to the core is kept, a rotation becomes one rotation, and
  other gates become circuits. The circuit of a controlled gate may be on one more qubit, whose
  register is set before.
-/
inductive Expansion : Instr → List Instr → Prop
  | kept {op : Op} {operands : List Operand} {line : Option HostLine} :
      Expansion (.op .core op operands line) [.op .core op operands line]
  | turned {op : Op} {q : Reg} {n d n' d' : Operand} {line : Option HostLine} :
      op ∈ [Op.rotX, .rotY, .rotZ] → SameCheck (Gate.angleOf n d) (Gate.angleOf n' d') →
        Expansion (.op .vanilla op [.reg q, n, d] line) [.op .nv op [.reg q, n', d'] line]
  | played {i : Instr} {rs : List Reg} {js : List Instr} :
      touches? i = some rs → Plays rs js → Expansion i js
  | exchanged {op : Op} {a b e : Reg} {js : List Instr} {line : Option HostLine} :
      op = .cnot ∨ op = .cphase → e ∈ Reg.ofBank .q → e ∉ [a, b] → Plays [e, a, b] js →
        Expansion (.op .vanilla op [.reg a, .reg b] line)
          (.op .core .set [.reg e, .imm 0] line :: js)

theorem Placed.expansion
    (hPlaced :
      Placed o (k.observe (.op .vanilla op [.reg a, .reg b] line)) direct reverse line a b x y
        block) (hDebug : o.debug = false) (hGate : op = .cnot ∨ op = .cphase)
    (hDirect : ∀ e c, Plays [e, c] (direct line e c))
    (hReverse : ∀ e c, Plays [e, c] (reverse line e c)) :
    Expansion (.op .vanilla op [.reg a, .reg b] line) block := by
  have hTouches : touches? (.op .vanilla op [.reg a, .reg b] line) = some [a, b] := by
    rcases hGate with rfl | rfl <;> rfl
  cases hPlaced with
  | first _ => exact .played hTouches (hDirect a b)
  | second _ => exact .played hTouches ((hReverse b a).mono fun r => by simp; tauto)
  | @neither e _ _ hUnused =>
    have hOther : e ∉ [a, b] := by
      have hUsed := unused?_not_mem hUnused
      intro hMember
      refine hUsed (mem_append_right _ ?_)
      simpa [Instr.operands, Operand.reg?] using hMember
    refine .exchanged hGate (mem_of_find?_eq_some hUnused) hOther ?_
    rw [hDebug]
    exact (((Plays.swap line e a).append (hDirect e b)).append (Plays.swap line e a)).mono
      fun r => by simp; tauto

---- Angles

-- A numerator that is scaled for hardware does not become too large to be computed with.
def Scales (o : Options) : Instr → Prop
  | .op .vanilla _ [_, .imm n, .imm d] _ =>
    o.hardware = true → n.natAbs < Angle.tooLarge →
      (n * Nat.pow 2 (exponent - d).toNat).natAbs < Angle.tooLarge
  | _ => True

theorem angleOf_imm {n d : Int} (hLow : 0 ≤ d) (hHigh : d ≤ exponent) :
    Gate.angleOf (.imm n) (.imm d) =
      if Angle.tooLarge ≤ n.natAbs then .error (.unexplained .overflow) else .ok ⟨n, d⟩ := by
  have hExponent : exponent = 4 := rfl
  have hNotLarge : ¬ 1024 ≤ d := by omega
  have hNotSmall : ¬ d < -1074 := by omega
  unfold Gate.angleOf Angle.check
  simp only [Operand.number?]
  by_cases hLarge : Angle.tooLarge ≤ n.natAbs
  · rw [if_pos hLarge, if_pos hLarge]
    rfl
  · rw [if_neg hLarge, if_neg hLarge, if_neg hNotLarge, if_neg hNotSmall]
    rfl

theorem SameCheck.refl (c : Checked Angle) : SameCheck c c := by
  cases c with
  | error e => exact .neither rfl
  | ok a => exact .both

-- An angle in the form for hardware can be computed if the angle can.
theorem hardwareAngle_sameCheck (hAngle : hardwareAngle i n d = .ok angle)
    (hScales : ∀ v e, n = .imm v → d = .imm e → v.natAbs < Angle.tooLarge →
        (v * Nat.pow 2 (exponent - e).toNat).natAbs < Angle.tooLarge) :
    ∃ n' d', angle = [n', d'] ∧ SameCheck (Gate.angleOf n d) (Gate.angleOf n' d') := by
  unfold hardwareAngle at hAngle
  split at hAngle
  · rename_i v e
    split at hAngle
    · rename_i hRange
      cases hAngle
      refine ⟨_, _, rfl, ?_⟩
      rw [angleOf_imm hRange.1 hRange.2, angleOf_imm (d := exponent) (by decide) (by decide)]
      by_cases hLarge : Angle.tooLarge ≤ v.natAbs
      · have hLarger : Angle.tooLarge ≤ (v * Nat.pow 2 (exponent - e).toNat).natAbs := by
          rw [Int.natAbs_mul]
          refine Nat.le_trans hLarge (Nat.le_mul_of_pos_right _ ?_)
          exact Nat.pow_pos (by decide)
        rw [if_pos hLarge, if_pos hLarger]
        exact .neither rfl
      · have hFits := hScales v e rfl rfl (Nat.lt_of_not_le hLarge)
        rw [if_neg hLarge, if_neg (Nat.not_le_of_lt hFits)]
        exact .both
    · cases hAngle
  · split at hAngle <;> cases hAngle
  · cases hAngle

theorem expand_rotation (o : Options) (k : Known) (op : Op) (q : Reg) (n d : Operand)
    (line : Option HostLine) :
    expand o k (.op .vanilla op [.reg q, n, d] line) = rotation o op q n d line := by
  cases n <;> rfl

theorem rotation_expansion (hGate : op ∈ [Op.rotX, .rotY, .rotZ])
    (hScales : Scales o (.op .vanilla op [.reg q, n, d] line))
    (hBlock : rotation o op q n d line = .ok block) :
    Expansion (.op .vanilla op [.reg q, n, d] line) block := by
  unfold rotation at hBlock
  by_cases hHardware : o.hardware = true
  · rw [if_pos hHardware] at hBlock
    rcases Checked.answer_ok hBlock with ⟨_, hAngle, rfl⟩
    have hRoom : ∀ v e, n = .imm v → d = .imm e → v.natAbs < Angle.tooLarge →
        (v * Nat.pow 2 (exponent - e).toNat).natAbs < Angle.tooLarge := by
      rintro v e rfl rfl
      exact hScales hHardware
    rcases hardwareAngle_sameCheck hAngle hRoom with ⟨_, _, rfl, hSame⟩
    exact .turned hGate hSame
  · rw [if_neg hHardware] at hBlock
    cases hBlock
    exact .turned hGate (.refl _)

theorem mem_vanilla_ops (hOps : (family, op) ∈ Flavour.vanilla.ops) :
    family = .core ∨ family = .vanilla ∧ op ∈ Flavour.vanilla.gates := by
  rcases mem_append.mp hOps with hGate | hCore
  · rcases mem_map.mp hGate with ⟨_, hGate, ⟨⟩⟩
    exact .inr ⟨rfl, hGate⟩
  · rcases mem_map.mp hCore with ⟨_, _, ⟨⟩⟩
    exact .inl rfl

theorem pair_expansion (hDebug : o.debug = false)
    (hBlock :
      twoQubit o (k.observe (.op .vanilla op [.reg a, .reg b] line)) op a b line = .ok block) :
    Expansion (.op .vanilla op [.reg a, .reg b] line) block := by
  by_cases hMove : op = .mov
  · subst hMove
    rcases twoQubit_mov hBlock with rfl | rfl
    · exact .played rfl (Plays.moveOut line a b)
    · exact .played rfl ((Plays.moveIn line b a).mono fun r => by simp; tauto)
  · rcases twoQubit_known hMove hBlock with ⟨x, y, _, _, _, ⟨hOp, hPlaced⟩ | ⟨hOp, hPlaced⟩⟩
    · exact hPlaced.expansion hDebug (.inl hOp) (Plays.electronCnot line) (Plays.carbonCnot line)
    · exact hPlaced.expansion hDebug (.inr hOp) (Plays.electronCphase line)
        (Plays.electronCphase line)

theorem expand_legal (hDebug : o.debug = false) (hLegal : i.Legal .vanilla) (hScales : Scales o i)
    (hBlock : expand o (k.observe i) i = .ok block) : Expansion i block := by
  cases i with
  | note words => exact hLegal.elim
  | op family op os line =>
    rcases hLegal with ⟨hOps, hFits, _⟩
    rcases mem_vanilla_ops hOps with rfl | ⟨rfl, hGate⟩
    · cases hBlock
      exact .kept
    cases op with
    | x | y | z | h | s | k | t =>
      rcases Slot.fitAll?_reg hFits with ⟨q, _, rfl, hNone⟩
      cases Slot.fitAll?_nil hNone
      simp only [expand] at hBlock
      split at hBlock
      · rename_i hCircuit
        cases hBlock
        exact .played rfl (Plays.single hCircuit)
      · cases hBlock
    | rotX | rotY | rotZ =>
      rcases Slot.fitAll?_reg hFits with ⟨q, _, rfl, hAngle⟩
      rcases Slot.fitAll?_cons hAngle with ⟨n, _, rfl, _, hExponent⟩
      rcases Slot.fitAll?_cons hExponent with ⟨d, _, rfl, _, hNone⟩
      cases Slot.fitAll?_nil hNone
      rw [expand_rotation] at hBlock
      exact rotation_expansion (by decide) hScales hBlock
    | cnot | cphase | mov =>
      rcases Slot.fitAll?_regs hFits with ⟨a, b, _, rfl, hNone⟩
      cases Slot.fitAll?_nil hNone
      exact pair_expansion hDebug hBlock
    | _ => exact absurd hGate (by decide)

theorem blocks_cons (hBlocks : blocks o k (i :: rest) = .ok (bs, known)) :
    ∃ block others, expand o (k.observe i) i = .ok block ∧
      blocks o (k.observe i) rest = .ok (others, known) ∧ bs = block :: others := by
  rcases Checked.binds_ok hBlocks with ⟨block, hBlock, ⟨others, _⟩, hRest, ⟨⟩⟩
  exact ⟨block, others, hBlock, hRest, rfl⟩

end Mapping

end QuantumNode

namespace QuantumNode.Mapping
variable {i : Instr} {bs : List (List Instr)} {n : Nat}

-- An instruction that leads to the start of a block where it led to a line.
def relocated (bs : List (List Instr)) (i : Instr) : Instr :=
  match target? i with
  | none => i
  | some (place, line) => setTarget place (startOf bs line.toNat) i

def tail (bs : List (List Instr)) : List Instr :=
  if bs.flatten.any (leaves bs.length) then [landing] else []

theorem relocated_plain (hPlain : target? i = none) : relocated bs i = i := by
  simp [relocated, hPlain]

theorem retarget_eq (hRetarget : retarget bs i = .ok j) : j = relocated bs i := by
  unfold retarget at hRetarget
  unfold relocated
  cases hTarget : target? i with
  | none =>
    simp only [hTarget] at hRetarget
    cases hRetarget
    rfl
  | some found =>
    simp only [hTarget] at hRetarget
    split at hRetarget
    · cases hRetarget
      rfl
    · cases hRetarget

theorem retargetAll_eq (hRetarget : retargetAll bs is = .ok js) : js = is.map (relocated bs) := by
  induction is generalizing js with
  | nil =>
    cases hRetarget
    rfl
  | cons i rest ih =>
    rcases Checked.binds_ok hRetarget with ⟨j, hFirst, _, hRest, ⟨⟩⟩
    rw [retarget_eq hFirst, ih hRest]
    rfl

theorem startOf_length (bs : List (List Instr)) : startOf bs bs.length = bs.flatten.length := by
  rw [startOf, take_length]

def blocksOf (o : Options) (s : Subroutine) : List (List Instr) :=
  match blocks o .empty s.instrs with
  | .ok (bs, _) => bs
  | .error _ => []

-- Code for instructions: a block for each of them, in which branches lead to the starts of blocks,
-- and what stands behind the blocks.
structure Laid (is : List Instr) (bs : List (List Instr)) (code : List Instr) : Prop where
  blocks : Forall₂ Expansion is bs
  code : code = bs.flatten.map (relocated bs) ++ tail bs

theorem blocks_expansion (hDebug : o.debug = false) (hLegal : ∀ i ∈ is, i.Legal .vanilla)
    (hScales : ∀ i ∈ is, Scales o i) (hBlocks : blocks o k is = .ok (bs, known)) :
    Forall₂ Expansion is bs := by
  induction is generalizing k bs with
  | nil =>
    cases hBlocks
    exact .nil
  | cons i rest ih =>
    rcases blocks_cons hBlocks with ⟨_, _, hBlock, hRest, rfl⟩
    exact .cons (expand_legal hDebug (hLegal i mem_cons_self) (hScales i mem_cons_self) hBlock)
      (ih (fun j hj => hLegal j (mem_cons_of_mem _ hj))
        (fun j hj => hScales j (mem_cons_of_mem _ hj)) hRest)

theorem laid_of_toNv (hDebug : o.debug = false) (hLegal : ∀ i ∈ s.instrs, i.Legal .vanilla)
    (hScales : ∀ i ∈ s.instrs, Scales o i) (hMapped : toNv o s = .ok (mapped, known)) :
    Laid s.instrs (blocksOf o s) mapped.instrs := by
  rcases Checked.binds_ok hMapped with ⟨built, hBlocks, _, hRetarget, ⟨⟩⟩
  have hOwn : blocksOf o s = built.1 := by simp [blocksOf, hBlocks]
  rw [hOwn]
  refine ⟨blocks_expansion hDebug hLegal hScales hBlocks, ?_⟩
  rw [← retargetAll_eq hRetarget]
  rfl

namespace Laid
variable {is code : List Instr}

theorem length_eq (hLaid : Laid is bs code) : bs.length = is.length := hLaid.blocks.length_eq.symm

theorem split (hLaid : Laid is bs code) (hAt : is[n]? = some i) :
    ∃ block behind rest, bs[n]? = some block ∧ Expansion i block ∧
      code = behind ++ (block.map (relocated bs) ++ rest) ∧ behind.length = startOf bs n := by
  rcases List.getElem?_eq_some_iff.mp hAt with ⟨hBound, hInstr⟩
  have hBound' : n < bs.length := hLaid.length_eq ▸ hBound
  have hExpansion := hLaid.blocks.get hBound hBound'
  rw [get_eq_getElem, hInstr] at hExpansion
  have hBlock : bs[n]? = some bs[n] := getElem?_eq_getElem hBound'
  refine ⟨bs[n], ((bs.take n).flatten).map (relocated bs),
    ((bs.drop (n + 1)).flatten).map (relocated bs) ++ tail bs, hBlock, hExpansion, ?_, ?_⟩
  · have hParts : bs.flatten = (bs.take n).flatten ++ (bs[n] ++ (bs.drop (n + 1)).flatten) := by
      rw [← flatten_cons, ← drop_eq_getElem_cons hBound', ← flatten_append, take_append_drop]
    rw [hLaid.code, hParts]
    simp
  · rw [length_map]
    rfl

theorem expansion (hLaid : Laid is bs code) (hAt : is[n]? = some i) (hBlock : bs[n]? = some block) :
    Expansion i block := by
  rcases hLaid.split hAt with ⟨_, _, _, hBlock', hExpansion, _⟩
  cases hBlock.symm.trans hBlock'
  exact hExpansion

end Laid

end QuantumNode.Mapping
