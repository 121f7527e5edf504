import QuantumNode.Proofs.Assembly.Layout
import QuantumNode.Proofs.Message.RoundTrip

/-
  Assembled code on its way to a node. In the generic flavour the node reads what the host
  assembled, unless a measurement in a rotated basis occurs: its code also belongs to the move of a
  qubit.
-/

open List

namespace QuantumNode.Assembly
open Flavour

theorem mem_ops_of_buildItems (hBuilt : buildItems f items = .ok is) :
    ∀ i ∈ is, ∃ family o os line, i = .op family o os line ∧ (family, o) ∈ f.ops := by
  fun_induction buildItems f items generalizing is with
  | case1 =>
    cases hBuilt
    simp
  | case2 => cases hBuilt
  | case3 c rest ih =>
    rcases Checked.binds_ok hBuilt with ⟨first, hFirst, others, hOthers, ⟨⟩⟩
    rcases buildCommand_ok hFirst with ⟨_, _, rfl, _, hFound⟩
    exact forall_mem_cons.mpr ⟨⟨_, _, _, _, rfl, mem_of_find?_eq_some hFound⟩, ih hOthers⟩

theorem mem_ops_of_assemble (hAssembled : assemble options f d = .ok s) :
    ∀ i ∈ s.instrs, ∃ family o os line, i = .op family o os line ∧ (family, o) ∈ f.ops := by
  rcases Checked.binds_ok hAssembled with ⟨_, _, is, hInstrs, ⟨⟩⟩
  exact mem_ops_of_buildItems hInstrs

-- In the generic flavour all codes are told apart, but for the one of measurements in a rotated
-- basis.
theorem vanilla_tells_iff (p : Family × Op) (hMem : p ∈ vanilla.ops) :
    vanilla.Tells p ↔ p.2 ≠ .measBasis := by
  revert p
  decide

-- What a host assembles in the generic flavour, within the ranges of the encoding, reaches the node
-- as it is exactly if it does not measure in a rotated basis.
theorem vanilla_delivered_iff
    (options : Options)
    (d : Draft)
    (s : Subroutine)
    (hAssembled : assemble options .vanilla d = .ok s)
    (hVersion : s.version.isSome)
    (hApp : s.appId.isSome)
    (hRange : ∀ i ∈ s.instrs, i.InRange) :
    ∃ payload t, s.encode = .ok payload ∧ HostMessage.decode
          (HostMessage.subroutine payload).encode =
        .ok (.subroutine payload) ∧
      Subroutine.decode .vanilla payload = .ok t ∧
      (t.instrs.map Instr.bare = s.instrs.map Instr.bare ↔
        ∀ i ∈ s.instrs, i.op? ≠ some .measBasis) := by
  have hOver : s.Over .vanilla := by
    refine ⟨hVersion, hApp, fun i hMem => ?_⟩
    rcases mem_ops_of_assemble hAssembled i hMem with ⟨_, o, _, _, rfl, hOps⟩
    exact ⟨hOps, (hRange _ hMem).imp Slot.accepts_of_inRange⟩
  rcases Subroutine.decode_encode .vanilla s hOver with ⟨payload, t, hEncode, hDecode, _, _, hSame⟩
  refine ⟨payload, t, hEncode, HostMessage.decode_encode (.subroutine payload), hDecode, ?_⟩
  have hTold : ∀ i ∈ s.instrs, (i.Told .vanilla ↔ i.op? ≠ some .measBasis) := by
    intro i hMem
    rcases mem_ops_of_assemble hAssembled i hMem with ⟨family, o, _, _, rfl, hOps⟩
    simpa [Instr.Told, Instr.op?] using vanilla_tells_iff (family, o) hOps
  rw [hSame]
  exact forall₂_congr fun i hMem => (and_iff_left (hRange i hMem)).trans (hTold i hMem)

def rotatedMeasurement : Draft where
  version := some ⟨0, 10⟩
  appId := some 0
  arguments := []
  items := [command .set [.reg ⟨.q, 0⟩, .int 0],
    command .measBasis [.reg ⟨.q, 0⟩, .reg ⟨.m, 0⟩, .int 0, .int 24, .int 0, .int 4],
    command .store [.reg ⟨.m, 0⟩, .entry 0 (.int 0)]]

def rotatedMeasurementCode : Subroutine := ⟨some ⟨0, 10⟩, some 0, [], [
  core .set [.reg ⟨.q, 0⟩, .imm 0],
  core .measBasis [.reg ⟨.q, 0⟩, .reg ⟨.m, 0⟩, .imm 0, .imm 24, .imm 0, .imm 4],
  core .set [.reg ⟨.r, 0⟩, .imm 0],
  core .store [.reg ⟨.m, 0⟩, .entry 0 (.reg ⟨.r, 0⟩)]]⟩

theorem rotatedMeasurementCode_inRange : ∀ i ∈ rotatedMeasurementCode.instrs, i.InRange := by
  simp [rotatedMeasurementCode, Instr.InRange, Op.slots,
    Slot.InRange, Slot.ByteRange, Slot.WordRange, Reg.InRange]

-- The node does not read back what was assembled here.
theorem rotatedMeasurement_not_delivered :
    ∃ payload t, rotatedMeasurementCode.encode = .ok payload ∧ HostMessage.decode
          (HostMessage.subroutine payload).encode =
        .ok (.subroutine payload) ∧
      Subroutine.decode .vanilla payload = .ok t ∧
      t.instrs.map Instr.bare ≠ rotatedMeasurementCode.instrs.map Instr.bare := by
  rcases vanilla_delivered_iff .full rotatedMeasurement rotatedMeasurementCode rfl rfl rfl
      rotatedMeasurementCode_inRange with
    ⟨payload, t, hEncode, hMessage, hDecode, hSame⟩
  refine ⟨payload, t, hEncode, hMessage, hDecode, ?_⟩
  intro hEqual
  have hNone := hSame.mp hEqual
  revert hNone
  decide

end QuantumNode.Assembly
