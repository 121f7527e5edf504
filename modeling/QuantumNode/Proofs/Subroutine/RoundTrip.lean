import Mathlib.Data.List.Forall2
import QuantumNode.Proofs.Effect

/-
  The encoding of subroutines and its inverse. A number is read back from its bytes if it fits. An
  instruction is read back exactly if its numbers are in the ranges of their fields and its code
  belongs to no other instruction of the flavour. The two highest bits of a register's byte and the
  bytes behind the operands of an instruction are padding, which is not read.
-/

open List

namespace QuantumNode
open Flavour Instr Operand Slot Reg Nat

namespace Bytes
variable (width : Nat) (v : Int)

@[simp] theorem length_ofNat (n : Nat) : (ofNat width n).length = width := by
  induction width generalizing n with
  | zero => rfl
  | succ width ih => simp [ofNat, ih]

@[simp] theorem length_ofInt : (ofInt width v).length = width := by simp [ofInt]

@[simp] theorem length_zeros (n : Nat) : (zeros n).length = n := by simp [zeros]

theorem toNat_ofNat (n : Nat) (hFits : n < Nat.pow 256 width) : toNat (ofNat width n) = n := by
  induction width generalizing n with
  | zero =>
    have hZero : n < 1 := hFits
    simp only [ofNat, toNat]
    omega
  | succ width ih =>
    have hHigh : n / 256 < Nat.pow 256 width := by
      apply Nat.div_lt_of_lt_mul
      rw [Nat.mul_comm]
      exact hFits
    have hByte : (UInt8.ofNat (n % 256)).toNat = n % 256 := by simp
    rw [ofNat, toNat, ih _ hHigh]
    omega

theorem range_pos : (0 : Int) < Nat.pow 256 width := by
  exact_mod_cast Nat.pow_pos (by decide : 0 < 256)

theorem toNat_ofInt : (toNat (ofInt width v) : Int) = v % (Nat.pow 256 width : Int) := by
  have hPos := range_pos width
  have hLow := Int.emod_nonneg v (Int.ne_of_gt hPos)
  have hHigh := Int.emod_lt_of_pos v hPos
  rw [ofInt, toNat_ofNat]
  · omega
  · omega

-- Without sign, exactly the numbers of the width are read back.
theorem toNat_ofInt_eq_iff : (toNat (ofInt width v) : Int) = v ↔ 0 ≤ v ∧ v < Nat.pow 256 width := by
  have hPos := range_pos width
  rw [toNat_ofInt]
  constructor
  · intro hSame
    rw [← hSame]
    exact ⟨Int.emod_nonneg v (Int.ne_of_gt hPos), Int.emod_lt_of_pos v hPos⟩
  · rintro ⟨hLow, hHigh⟩
    exact Int.emod_eq_of_lt hLow hHigh

-- With sign, exactly the numbers of the width are read back: the remainder is the number itself or
-- lies one range above.
theorem toInt_ofInt_eq_iff :
    toInt (ofInt width v) = v ↔ -(Nat.pow 256 width : Int) ≤ 2 * v ∧ 2 * v < Nat.pow 256 width := by
  have hPos := range_pos width
  have hRest := toNat_ofInt width v
  have hHigh := Int.emod_lt_of_pos v hPos
  rw [toInt, length_ofInt]
  constructor
  · intro hSame
    split at hSame <;> omega
  · rintro _
    by_cases hSign : 0 ≤ v
    · have hSelf : v % (Nat.pow 256 width : Int) = v := Int.emod_eq_of_lt hSign (by omega)
      omega
    · have hAbove : v % (Nat.pow 256 width : Int) = v + Nat.pow 256 width := by
        rw [← Int.add_emod_right]
        exact Int.emod_eq_of_lt (by omega) (by omega)
      omega

end Bytes

namespace Reg

def InRange (r : Reg) : Prop := 0 ≤ r.index ∧ r.index ≤ 15

instance (r : Reg) : Decidable r.InRange := by
  unfold InRange
  infer_instance

theorem decode_encode (r : Reg) : decode r.encode = ⟨r.bank, r.index % 16⟩ := by
  rcases r with ⟨bank, index⟩
  have hCode : bank.code < 4 := by cases bank <;> decide
  have hByte : (encode ⟨bank, index⟩).toNat = bank.code + 4 * (index % 16).toNat := by
    simp only [encode, UInt8.toNat_ofNat']
    omega
  have hBank : Bank.ofCode (bank.code + 4 * (index % 16).toNat) = bank := by
    have hRest : (bank.code + 4 * (index % 16).toNat) % 4 = bank.code := by omega
    unfold Bank.ofCode
    rw [hRest]
    cases bank <;> rfl
  rw [decode, hByte]
  congr 1
  dsimp only
  omega

theorem decode_encode_eq_iff (r : Reg) : decode r.encode = r ↔ r.InRange := by
  rw [decode_encode]
  rcases r with ⟨_, _⟩
  simp only [mk.injEq, true_and, InRange]
  omega

end Reg

namespace Operand

-- A number without the words that it is shown under.
def bare : Operand → Operand
  | shown v _ => imm v
  | o => o

end Operand

namespace Slot

-- The operands that a slot can encode: no templates, and places of arrays only in registers.
def Accepts : Slot → Operand → Prop
  | .reg, .reg _ => True
  | .byte, .imm _ | .byte, .shown _ _ => True
  | .angle, .imm _ | .angle, .shown _ _ => True
  | .word, .imm _ | .word, .shown _ _ => True
  | .addr, .addr _ => True
  | .entry, .entry _ (.reg _) => True
  | .slice, .slice _ (.reg _) (.reg _) => True
  | _, _ => False

variable (v : Int)

def ByteRange : Prop := 0 ≤ v ∧ v ≤ 255

def WordRange : Prop := -2147483648 ≤ v ∧ v ≤ 2147483647

-- The operands that the fields of a slot have room for.
def InRange : Slot → Operand → Prop
  | .reg, .reg r => r.InRange
  | .byte, .imm v | .byte, .shown v _ => ByteRange v
  | .angle, .imm v | .angle, .shown v _ => ByteRange v
  | .word, .imm v | .word, .shown v _ => WordRange v
  | .addr, .addr a => WordRange a
  | .entry, .entry a (.reg i) => WordRange a ∧ i.InRange
  | .slice, .slice a (.reg lo) (.reg hi) => WordRange a ∧ lo.InRange ∧ hi.InRange
  | _, _ => False

theorem accepts_of_inRange (s : Slot) (o : Operand) (hRange : s.InRange o) : s.Accepts o := by
  unfold InRange at hRange
  split at hRange <;> trivial

theorem toNat_take_ofInt_eq_iff (rest : Bytes) :
    (Bytes.toNat ((Bytes.ofInt 1 v ++ rest).take 1) : Int) = v ↔ ByteRange v := by
  rw [take_left' (Bytes.length_ofInt 1 v), Bytes.toNat_ofInt_eq_iff]
  have hPow : (Nat.pow 256 1 : Int) = 256 := rfl
  unfold ByteRange
  omega

theorem toInt_take_ofInt_eq_iff (rest : Bytes) :
    Bytes.toInt ((Bytes.ofInt 4 v ++ rest).take 4) = v ↔ WordRange v := by
  rw [take_left' (Bytes.length_ofInt 4 v), Bytes.toInt_ofInt_eq_iff]
  have hPow : (Nat.pow 256 4 : Int) = 4294967296 := rfl
  unfold WordRange
  omega

theorem regAt_encode (front : Bytes) (r : Reg) (rest : Bytes) :
    regAt (front ++ r.encode :: rest) front.length = Reg.decode r.encode := by
  simp [regAt]

-- The bytes of an operand fill its slot, and it is read back from them exactly if it is in range.
theorem decode_encode (s : Slot) (o : Operand) (hAccepts : s.Accepts o) :
    ∃ bs, s.encode o = .ok bs ∧ bs.length = s.size ∧
      ∀ rest, s.decode (bs ++ rest) = o.bare ↔ s.InRange o := by
  unfold Accepts at hAccepts
  split at hAccepts
  case h_1 r =>
    refine ⟨[r.encode], rfl, rfl, fun rest => ?_⟩
    simp [decode, regAt, bare, InRange, decode_encode_eq_iff]
  case h_2 v | h_4 v | h_3 v _ | h_5 v _ =>
    refine ⟨Bytes.ofInt 1 v, rfl, Bytes.length_ofInt 1 v, fun rest => ?_⟩
    simp only [decode, bare, imm.injEq]
    exact toNat_take_ofInt_eq_iff v rest
  case h_6 v | h_7 v _ =>
    refine ⟨Bytes.ofInt 4 v, rfl, Bytes.length_ofInt 4 v, fun rest => ?_⟩
    simp only [decode, bare, imm.injEq]
    exact toInt_take_ofInt_eq_iff v rest
  case h_8 a =>
    refine ⟨Bytes.ofInt 4 a, rfl, Bytes.length_ofInt 4 a, fun rest => ?_⟩
    simp only [decode, bare, addr.injEq]
    exact toInt_take_ofInt_eq_iff a rest
  case h_9 a i =>
    refine ⟨Bytes.ofInt 4 a ++ [i.encode], rfl, by simp [size], fun rest => ?_⟩
    have hIndex := regAt_encode (Bytes.ofInt 4 a) i rest
    rw [Bytes.length_ofInt] at hIndex
    simp only [decode, bare, InRange, append_assoc, singleton_append, hIndex, entry.injEq,
      Index.reg.injEq, decode_encode_eq_iff, toInt_take_ofInt_eq_iff]
  case h_10 a lo hi =>
    refine ⟨Bytes.ofInt 4 a ++ [lo.encode, hi.encode], rfl, by simp [size], fun rest => ?_⟩
    have hLow := regAt_encode (Bytes.ofInt 4 a) lo (hi.encode :: rest)
    have hHigh := regAt_encode (Bytes.ofInt 4 a ++ [lo.encode]) hi rest
    simp only [length_append, Bytes.length_ofInt, length_singleton, append_assoc,
      singleton_append] at hLow hHigh
    simp only [decode, bare, InRange, append_assoc, cons_append, nil_append, hLow, hHigh,
      slice.injEq, Index.reg.injEq, decode_encode_eq_iff, toInt_take_ofInt_eq_iff]
  case h_11 => exact hAccepts.elim

@[simp] theorem bare_decode (s : Slot) (bs : Bytes) : (s.decode bs).bare = s.decode bs := by
  cases s <;> rfl

theorem bare_decodeAll (slots : List Slot) (bs : Bytes) :
    (decodeAll slots bs).map bare = decodeAll slots bs := by
  induction slots generalizing bs with
  | nil => rfl
  | cons s slots ih => simp [decodeAll, ih]

-- Bytes that several slots take together.
def total : List Slot → Nat
  | [] => 0
  | s :: slots => s.size + total slots

-- Operands are read back from their bytes exactly if every one of them is in range.
theorem decodeAll_encodeAll (slots : List Slot) (os : List Operand)
    (hAccepts : Forall₂ Accepts slots os) :
    ∃ bs, encodeAll slots os = .ok bs ∧ bs.length = total slots ∧ ∀ rest,
        decodeAll slots (bs ++ rest) = os.map bare ↔ Forall₂ InRange slots os := by
  induction hAccepts with
  | nil => exact ⟨[], rfl, rfl, by simp [decodeAll]⟩
  | @cons s o slots os hFirst _ ih =>
    rcases decode_encode s o hFirst with ⟨first, hEncode, hLength, hDecode⟩
    rcases ih with ⟨others, hEncodeAll, hTotal, hDecodeAll⟩
    refine ⟨first ++ others, ?_, ?_, fun rest => ?_⟩
    · rw [encodeAll, hEncode, hEncodeAll]
      rfl
    · rw [length_append, hLength, hTotal, total]
    · rw [decodeAll, map_cons, List.cons.injEq, append_assoc, hDecode, ← hLength,
        drop_left, hDecodeAll, forall₂_cons]

end Slot

---- Instructions

variable {os : List Operand} {slots : List Slot} (f : Flavour)

-- A flavour tells an instruction by its code: the code leads to this instruction and to no other
-- one.
def Flavour.Tells (p : Family × Op) : Prop := f.byCode? (p.2.code?.getD 0) = some p

instance (f : Flavour) (p : Family × Op) : Decidable (f.Tells p) := by
  unfold Tells
  infer_instance

namespace Instr
variable (f : Flavour)

-- Instructions of a flavour whose operands can be encoded: the flavour has the operation, and no
-- template is left.
def Over : Instr → Prop
  | op family o operands _ => (family, o) ∈ f.ops ∧ Forall₂ Accepts o.slots operands
  | note _ => False

def InRange : Instr → Prop
  | op _ o operands _ => Forall₂ Slot.InRange o.slots operands
  | note _ => False

-- Instructions that their flavour tells by the code.
def Told : Instr → Prop
  | op family o _ _ => f.Tells (family, o)
  | note _ => False

-- What an instruction says to a node: the line of the host and the words of numbers are left out.
def bare : Instr → Instr
  | op family o operands _ => op family o (operands.map Operand.bare) none
  | note words => note words

-- The operands of an instruction leave room for its code.
theorem total_slots_lt (o : Op) : total o.slots < size := by cases o <;> decide

theorem code_known (p : Family × Op) (hMem : p ∈ f.ops) :
    p.2.code?.getD 0 < 256 ∧ (f.byCode? (p.2.code?.getD 0)).isSome := by
  revert p
  cases f <;> decide

-- The bytes of an operation with operands: its code, the operands, and padding up to the size of an
-- instruction.
theorem encode_op (family : Family) (o : Op) (os : List Operand)
    (line : Option HostLine) (body : Bytes) (hBody : encodeAll o.slots os = .ok body) :
    (op family o os line).encode =
      .ok (Bytes.ofNat 1 (o.code?.getD 0) ++ (body ++ Bytes.zeros (size - (1 + body.length)))) := by
  simp only [encode, hBody, length_append]
  rfl

-- An instruction is read back exactly if its flavour tells it by its code and its operands are in
-- range. Otherwise another instruction is read.
theorem decode_encode (i : Instr) (hOver : i.Over f) :
    ∃ bs j, i.encode = .ok bs ∧ bs.length = size ∧ decode f bs = .ok j ∧
      (j.bare = i.bare ↔ i.Told f ∧ i.InRange) := by
  rcases i with ⟨family, o, os, line⟩ | words
  · rcases hOver with ⟨hMem, hAccepts⟩
    rcases Slot.decodeAll_encodeAll o.slots os hAccepts with ⟨body, hEncode, hLength, hDecode⟩
    rcases code_known f (family, o) hMem with ⟨hByte, hKnown⟩
    rcases Option.isSome_iff_exists.mp hKnown with ⟨⟨family', o'⟩, hFound⟩
    have hRoom := total_slots_lt o
    have hCode : Bytes.toNat (Bytes.ofNat 1 (o.code?.getD 0)) = o.code?.getD 0 :=
      Bytes.toNat_ofNat 1 _ hByte
    let padding := Bytes.zeros (size - (1 + body.length))
    refine ⟨_, op family' o' (Slot.decodeAll o'.slots (body ++ padding)) none,
      encode_op family o os line body hEncode, ?_, ?_, ?_⟩
    · simp only [length_append, Bytes.length_ofNat, Bytes.length_zeros]
      omega
    · rw [decode, take_left' (Bytes.length_ofNat 1 _), drop_left' (Bytes.length_ofNat 1 _), hCode]
      rw [hFound]
    · simp only [bare, Slot.bare_decodeAll, op.injEq,
        and_true, Told, Flavour.Tells] at ⊢
      rw [hFound]
      simp only [Option.some.injEq, Prod.mk.injEq]
      constructor
      · rintro ⟨rfl, rfl, hOperands⟩
        exact ⟨⟨rfl, rfl⟩, (hDecode _).mp hOperands⟩
      · rintro ⟨⟨rfl, rfl⟩, hRange⟩
        exact ⟨rfl, rfl, (hDecode _).mpr hRange⟩
  · exact hOver.elim

-- A rotation is read with both numbers modulo 256.
theorem decode_rotation (hRotation : o ∈ [Op.rotX, .rotY, .rotZ]) (f : Flavour) (q : Reg)
    (n d : Int) (line : Option HostLine) :
    ∃ bs, (op f.family o [.reg q, .imm n, .imm d] line).encode = .ok bs ∧
      decode f bs =
        .ok (op f.family o [.reg ⟨q.bank, q.index % 16⟩, .imm (n % 256), .imm (d % 256)] none) := by
  have hByte : ∀ v : Int, (Bytes.toNat (Bytes.ofInt 1 v) : Int) = v % 256 := Bytes.toNat_ofInt 1
  rw [← Reg.decode_encode, ← hByte, ← hByte]
  simp only [mem_cons, not_mem_nil, or_false] at hRotation
  cases f <;> rcases hRotation with rfl | rfl | rfl <;> exact ⟨_, rfl, rfl⟩

end Instr

-- Instructions of a flavour: it has the operation, every slot holds its operand, and the registers
-- exist.
def Instr.Legal : Instr → Prop
  | op family o operands _ =>
    (family, o) ∈ f.ops ∧ fitAll? o.slots operands = some operands ∧
      ∀ r ∈ operands.filterMap reg?, r.InRange
  | note _ => False

instance Instr.Legal.decidable : ∀ i : Instr, Decidable (i.Legal f)
  | .op family o operands _ =>
    inferInstanceAs (Decidable ((family, o) ∈ f.ops ∧ fitAll? o.slots operands = some operands ∧
        ∀ r ∈ operands.filterMap reg?, r.InRange))
  | .note _ => isFalse id

theorem Slot.fitAll?_cons (hFits : fitAll? (slot :: slots) os = some os) :
    ∃ o rest, os = o :: rest ∧ slot.fit? o = some o ∧ fitAll? slots rest = some rest := by
  cases os with
  | nil => cases hFits
  | cons o rest =>
    simp only [fitAll?] at hFits
    split at hFits
    · rename_i hFirst hRest
      cases hFits
      exact ⟨o, rest, rfl, hFirst, hRest⟩
    · cases hFits

theorem Slot.fitAll?_nil (hFits : fitAll? [] os = some os) : os = [] := by
  cases os with
  | nil => rfl
  | cons o rest => cases hFits

theorem Slot.fit?_reg (hFit : fit? .reg o = some o) : ∃ r, o = .reg r := by
  cases o with
  | reg r => exact ⟨r, rfl⟩
  | _ => cases hFit

theorem Slot.fitAll?_reg (hFits : fitAll? (.reg :: slots) os = some os) :
    ∃ r rest, os = .reg r :: rest ∧ fitAll? slots rest = some rest := by
  rcases fitAll?_cons hFits with ⟨o, rest, rfl, hReg, hRest⟩
  rcases fit?_reg hReg with ⟨r, rfl⟩
  exact ⟨r, rest, rfl, hRest⟩

theorem Slot.fitAll?_regs (hFits : fitAll? (.reg :: .reg :: slots) os = some os) :
    ∃ r q rest, os = .reg r :: .reg q :: rest ∧ fitAll? slots rest = some rest := by
  rcases fitAll?_reg hFits with ⟨r, _, rfl, hOthers⟩
  rcases fitAll?_reg hOthers with ⟨q, rest, rfl, hRest⟩
  exact ⟨r, q, rest, rfl, hRest⟩

---- Subroutines

def Version.InRange (v : Version) : Prop := ByteRange v.major ∧ ByteRange v.minor

namespace Subroutine

---- Subroutines that can be encoded

variable (f : Flavour) (s : Subroutine)

-- Subroutines of a flavour, with a version and an application, whose instructions can be encoded.
def Over : Prop := s.version.isSome ∧ s.appId.isSome ∧ ∀ i ∈ s.instrs, i.Over f

def AppRange (appId : Int) : Prop := 0 ≤ appId ∧ appId ≤ 65535

def InRange : Prop :=
  (∀ v ∈ s.version, v.InRange) ∧ (∀ a ∈ s.appId, AppRange a) ∧ ∀ i ∈ s.instrs, i.InRange

-- Subroutines that say the same to a node: version, application, operations and operands.
def Same (t : Subroutine) : Prop :=
  s.version = t.version ∧ s.appId = t.appId ∧ s.instrs.map Instr.bare = t.instrs.map Instr.bare

theorem Same.symm {s t : Subroutine} (hSame : s.Same t) : t.Same s :=
  ⟨hSame.1.symm, hSame.2.1.symm, hSame.2.2.symm⟩

theorem Same.trans {s t u : Subroutine} (hFirst : s.Same t) (hSecond : t.Same u) : s.Same u :=
  ⟨hFirst.1.trans hSecond.1, hFirst.2.1.trans hSecond.2.1, hFirst.2.2.trans hSecond.2.2⟩

-- A row of instructions is read back exactly if each one of them is.
theorem decodeInstrs_encodeInstrs (is : List Instr) (hOver : ∀ i ∈ is, i.Over f) :
    ∃ bs js, encodeInstrs is = .ok bs ∧ bs.length = is.length * Instr.size ∧
      decodeInstrs f is.length bs = .ok js ∧
      (js.map Instr.bare = is.map Instr.bare ↔ ∀ i ∈ is, i.Told f ∧ i.InRange) := by
  induction is with
  | nil => exact ⟨[], [], rfl, rfl, rfl, by simp⟩
  | cons i is ih =>
    rw [forall_mem_cons] at hOver
    rcases decode_encode f i hOver.1 with ⟨first, j, hEncode, hLength, hDecode, hFirst⟩
    rcases ih hOver.2 with ⟨others, js, hEncodeAll, hTotal, hDecodeAll, hRest⟩
    refine ⟨first ++ others, j :: js, ?_, ?_, ?_, ?_⟩
    · rw [encodeInstrs, hEncode, hEncodeAll]
      rfl
    · rw [length_append, length_cons, Nat.add_mul]
      omega
    · rw [length_cons, decodeInstrs, take_left' hLength, drop_left' hLength, hDecode, hDecodeAll]
      rfl
    · rw [map_cons, map_cons, List.cons.injEq, forall_mem_cons, hFirst, hRest]

---- Subroutines

theorem encode_eq (v : Version) (appId : Int) (body : Bytes)
    (hVersion : s.version = some v) (hApp : s.appId = some appId)
    (hBody : encodeInstrs s.instrs = .ok body) :
    s.encode =
      .ok (Bytes.ofInt 1 v.major ++ (Bytes.ofInt 1 v.minor ++ (Bytes.ofInt 2 appId ++ body))) := by
  rw [encode, hApp, hVersion]
  simp only [hBody]
  rfl

-- What is read from the bytes of a header.
def headed (major minor appId : Bytes) (js : List Instr) : Subroutine :=
  ⟨some ⟨Bytes.toNat major, Bytes.toNat minor⟩, some (Bytes.toNat appId), [], js⟩

theorem decode_of_body (bs : Bytes) (n : Nat) (js : List Instr) (hHeader : headerSize ≤ bs.length)
    (hLength : (bs.drop headerSize).length = n * Instr.size)
    (hBody : decodeInstrs f n (bs.drop headerSize) = .ok js) :
    decode f bs = .ok (headed (bs.take 1) ((bs.drop 1).take 1) ((bs.drop 2).take 2) js) := by
  have hLong : ¬ bs.length < headerSize := by omega
  have hRows : n * Instr.size / Instr.size = n := Nat.mul_div_cancel n (by decide)
  have hWhole : n * Instr.size % Instr.size = 0 := mul_mod_left n Instr.size
  simp only [decode, if_neg hLong, hLength, hRows, hWhole,
    hBody]
  rfl

/-
  A subroutine can be encoded and read in its flavour. Of its version and its application the bytes
  of the header remain. Its instructions are read back exactly if they are in range and told by
  their codes.
-/
theorem decode_encode_parts (hOver : s.Over f) :
    ∃ bs v appId js, s.encode = .ok bs ∧ s.version = some v ∧ s.appId = some appId ∧
      decode f bs =
        .ok (headed (Bytes.ofInt 1 v.major) (Bytes.ofInt 1 v.minor) (Bytes.ofInt 2 appId) js) ∧
      (js.map Instr.bare = s.instrs.map Instr.bare ↔ ∀ i ∈ s.instrs, i.Told f ∧ i.InRange) := by
  rcases hOver with ⟨hVersion, hApp, hInstrs⟩
  rcases Option.isSome_iff_exists.mp hVersion with ⟨v, hVersion⟩
  rcases Option.isSome_iff_exists.mp hApp with ⟨appId, hApp⟩
  rcases decodeInstrs_encodeInstrs f s.instrs hInstrs with
    ⟨body, js, hEncode, hLength, hDecode, hSame⟩
  refine ⟨_, v, appId, js, encode_eq s v appId body hVersion hApp hEncode, hVersion, hApp,
    decode_of_body f _ _ js ?_ hLength hDecode, hSame⟩
  simp only [length_append, Bytes.length_ofInt, headerSize]
  omega

-- The version and the application are read back exactly if they are in range.
theorem decode_encode (hOver : s.Over f) :
    ∃ bs t, s.encode = .ok bs ∧ decode f bs = .ok t ∧
      (t.version = s.version ↔ ∀ v ∈ s.version, v.InRange) ∧
      (t.appId = s.appId ↔ ∀ a ∈ s.appId, AppRange a) ∧
      (t.instrs.map Instr.bare = s.instrs.map Instr.bare ↔
        ∀ i ∈ s.instrs, i.Told f ∧ i.InRange) := by
  rcases decode_encode_parts f s hOver with
    ⟨bs, v, appId, js, hEncode, hVersion, hApp, hDecode, hSame⟩
  refine ⟨bs, _, hEncode, hDecode, ?_, ?_, hSame⟩
  · rcases v with ⟨major, minor⟩
    have hPow : (Nat.pow 256 1 : Int) = 256 := rfl
    simp only [headed, hVersion, Option.some.injEq, Version.mk.injEq,
      Bytes.toNat_ofInt_eq_iff, Option.mem_some_iff,
      forall_eq', Version.InRange, ByteRange]
    omega
  · have hPow : (Nat.pow 256 2 : Int) = 65536 := rfl
    simp only [headed, hApp, Option.some.injEq, Bytes.toNat_ofInt_eq_iff, Option.mem_some_iff,
      forall_eq', AppRange]
    omega

-- All codes of the nitrogen-vacancy flavour differ.
theorem nv_tells (i : Instr) (hOver : i.Over .nv) : i.Told .nv := by
  have hAll : ∀ p ∈ nv.ops, nv.Tells p := by decide
  cases i with
  | op family o os line => exact hAll _ hOver.1
  | note words => exact hOver.elim

-- A subroutine for nitrogen-vacancy hardware is read back from its bytes exactly if it is in range,
-- and two different ones in range never have the same bytes.
theorem nv_same_decode_encode_iff
    (s : Subroutine)
    (hOver : s.Over .nv) :
    ∃ bs t, s.encode = .ok bs ∧ decode .nv bs = .ok t ∧ (s.Same t ↔ s.InRange) ∧
      ∀ other : Subroutine, other.Over .nv → s.InRange → other.InRange →
        other.encode = .ok bs → s.Same other := by
  have hIff : ∀ u : Subroutine, u.Over .nv → ∃ bs t, u.encode = .ok bs ∧ decode .nv bs = .ok t ∧
      (u.Same t ↔ u.InRange) := by
    intro u hOver
    rcases decode_encode .nv u hOver with ⟨bs, t, hEncode, hDecode, hVersion, hApp, hInstrs⟩
    refine ⟨bs, t, hEncode, hDecode, ?_⟩
    rw [Same, eq_comm, hVersion, eq_comm, hApp, eq_comm, hInstrs, InRange]
    refine and_congr_right fun _ => and_congr_right fun _ => forall₂_congr fun i hMem => ?_
    exact and_iff_right (nv_tells i (hOver.2.2 i hMem))
  rcases hIff s hOver with ⟨bs, t, hEncode, hDecode, hSame⟩
  refine ⟨bs, t, hEncode, hDecode, hSame, ?_⟩
  intro other hOther hRange hOtherRange hBytes
  rcases hIff other hOther with ⟨bs', t', hEncode', hDecode', hSame'⟩
  have hBs : bs' = bs := by
    simpa using hEncode'.symm.trans hBytes
  have hT : t' = t := by
    rw [hBs] at hDecode'
    simpa using hDecode'.symm.trans hDecode
  rw [hT] at hSame'
  exact (hSame.mpr hRange).trans (hSame'.mpr hOtherRange).symm

-- Values at the ends of their ranges, and a word.
def nvExample (word : Int) : Subroutine := ⟨some ⟨255, 0⟩, some 65535, [], [
  core .set [.reg ⟨.m, 15⟩, .imm word],
  core .waitAll [.slice (-1) (.reg ⟨.r, 0⟩) (.reg ⟨.c, 15⟩)],
  core .measBasis [.reg ⟨.q, 0⟩, .reg ⟨.m, 0⟩, .imm 0, .imm 255, .imm 1, .shown 1 "True"],
  .op .nv .crotY [.reg ⟨.q, 0⟩, .reg ⟨.q, 1⟩, .imm 3, .imm 4] none]⟩

theorem nvExample_over (word : Int) : (nvExample word).Over .nv := by
  refine ⟨rfl, rfl, ?_⟩
  simp [nvExample, Instr.Over, Flavour.ops, Flavour.gates,
    Flavour.coreOps, Flavour.family, Op.slots, Slot.Accepts]

theorem nvExample_inRange_iff (word : Int) :
    (nvExample word).InRange ↔ -2147483648 ≤ word ∧ word ≤ 2147483647 := by
  simp [nvExample, InRange, Version.InRange, AppRange, Instr.InRange, Op.slots, Slot.InRange,
    ByteRange, WordRange, Reg.InRange]

-- It is read back with the greatest word, and not with a greater one.
theorem nv_same_decode_encode_iff_example :
    (∀ word, (nvExample word).Over .nv) ∧
      (∃ bs t, (nvExample 2147483647).encode = .ok bs ∧ decode .nv bs = .ok t ∧
        (nvExample 2147483647).Same t) ∧
      ∃ bs t, (nvExample 2147483648).encode = .ok bs ∧ decode .nv bs = .ok t ∧
        ¬ (nvExample 2147483648).Same t := by
  refine ⟨nvExample_over, ?_, ?_⟩
  · rcases nv_same_decode_encode_iff _ (nvExample_over 2147483647) with
      ⟨bs, t, hEncode, hDecode, hSame, _⟩
    exact ⟨bs, t, hEncode, hDecode, hSame.mpr ((nvExample_inRange_iff _).mpr (by decide))⟩
  · rcases nv_same_decode_encode_iff _ (nvExample_over 2147483648) with
      ⟨bs, t, hEncode, hDecode, hSame, _⟩
    refine ⟨bs, t, hEncode, hDecode, ?_⟩
    rw [hSame, nvExample_inRange_iff]
    decide

end Subroutine

namespace Bytes

theorem toNat_lt (bs : Bytes) : toNat bs < Nat.pow 256 bs.length := by
  induction bs with
  | nil => decide
  | cons b bs ih =>
    have hByte := b.toNat_lt
    have hPow : Nat.pow 256 (bs.length + 1) = Nat.pow 256 bs.length * 256 := rfl
    rw [toNat, length_cons]
    omega

theorem ofNat_toNat (bs : Bytes) : ofNat bs.length (toNat bs) = bs := by
  induction bs with
  | nil => rfl
  | cons b bs ih =>
    have hByte := b.toNat_lt
    have hLow : (b.toNat + 256 * toNat bs) % 256 = b.toNat := by omega
    have hHigh : (b.toNat + 256 * toNat bs) / 256 = toNat bs := by omega
    rw [length_cons, toNat, ofNat, hLow, hHigh, ih, UInt8.ofNat_toNat]

variable {bs : Bytes}

-- Bytes are written again for a number that differs from theirs by their range.
theorem ofInt_eq {width : Nat} {v : Int} (hWidth : bs.length = width)
    (hNumber : v = toNat bs ∨ v = toNat bs - (Nat.pow 256 width : Int)) : ofInt width v = bs := by
  subst hWidth
  have hRange := toNat_lt bs
  have hRest : v % (Nat.pow 256 bs.length : Int) = toNat bs := by
    rcases hNumber with rfl | rfl
    · exact Int.emod_eq_of_lt (by omega) (by omega)
    · rw [← Int.add_emod_right, Int.sub_add_cancel]
      exact Int.emod_eq_of_lt (by omega) (by omega)
  rw [ofInt, hRest, Int.toNat_natCast, ofNat_toNat]

-- The bits of bytes that are set in a mask.
def masked (bs mask : Bytes) : Bytes := List.zipWith (· &&& ·) bs mask

theorem masked_append (hLong : front.length ≤ bs.length) :
    masked bs (front ++ back) = masked bs front ++ masked (bs.drop front.length) back := by
  induction front generalizing bs with
  | nil => simp [masked]
  | cons m front ih =>
    cases bs with
    | nil => cases hLong
    | cons b bs =>
      have hRest := @ih bs (by simpa using hLong)
      simpa [masked] using hRest

theorem masked_full (n : Nat) (bs : Bytes) : masked bs (List.replicate n 255) = bs.take n := by
  have hByte : ∀ b : UInt8, b &&& 255 = b := fun b => UInt8.and_neg_one
  induction n generalizing bs with
  | zero => simp [masked]
  | succ n ih =>
    cases bs with
    | nil => rfl
    | cons b bs =>
      rw [replicate_succ, take_succ_cons, ← ih bs]
      simp [masked, hByte]

theorem masked_zeros (hLength : bs.length = n) : masked bs (zeros n) = zeros n := by
  subst hLength
  induction bs with
  | nil => rfl
  | cons b bs ih => exact congrArg₂ List.cons (UInt8.and_zero) ih

end Bytes

---- Operands

-- A byte without its two highest bits is written again.
theorem Reg.encode_decode (b : UInt8) : (decode b).encode = b &&& 63 := by
  have hAll : ∀ n < 256, (decode (UInt8.ofNat n)).encode = UInt8.ofNat n &&& 63 := by decide +kernel
  have hByte := hAll b.toNat b.toNat_lt
  rwa [UInt8.ofNat_toNat] at hByte

theorem Reg.inRange_decode (b : UInt8) : (decode b).InRange := by
  simp only [decode, InRange]
  omega

namespace Slot
open Bytes

-- The bits of the bytes of a slot that are read.
def dataBits : Slot → Bytes
  | reg => [63]
  | byte | angle => List.replicate 1 255
  | word | addr => List.replicate 4 255
  | entry => List.replicate 4 255 ++ [63]
  | slice => List.replicate 4 255 ++ [63, 63]

@[simp] theorem length_dataBits (s : Slot) : s.dataBits.length = s.size := by cases s <;> rfl

theorem length_flatMap_dataBits
    (slots : List Slot) : (slots.flatMap dataBits).length = total slots := by
  induction slots with
  | nil => rfl
  | cons s slots ih => rw [flatMap_cons, length_append, length_dataBits, ih, total]

theorem masked_reg (hInside : place < bs.length) :
    masked (bs.drop place) (63 :: mask) =
      (regAt bs place).encode :: masked (bs.drop (place + 1)) mask := by
  have hByte : bs.getD place 0 = bs[place] := by simp [hInside]
  rw [drop_eq_getElem_cons hInside, regAt, hByte, encode_decode]
  rfl

theorem ofInt_take {bs : Bytes} {width : Nat} (hLong : width ≤ bs.length) :
    ofInt width (Bytes.toNat (bs.take width)) = bs.take width ∧
      ofInt width (Bytes.toInt (bs.take width)) = bs.take width := by
  have hWidth : (bs.take width).length = width := length_take_of_le hLong
  refine ⟨ofInt_eq hWidth (.inl rfl), ofInt_eq hWidth ?_⟩
  rw [toInt, hWidth]
  split
  · exact .inl rfl
  · exact .inr rfl

-- What is read from bytes is in range, and is written to the bits that were read.
theorem encode_decode (s : Slot) (bs : Bytes) (hLong : s.size ≤ bs.length) :
    s.InRange (s.decode bs) ∧ s.encode (s.decode bs) = .ok (masked bs s.dataBits) := by
  have hNone : ∀ bs, masked bs [] = [] := fun _ => zipWith_nil_right
  have hByte : 1 ≤ bs.length → ByteRange (Bytes.toNat (bs.take 1)) := fun h =>
    (toNat_take_ofInt_eq_iff _ []).mp (by
      rw [(ofInt_take h).1, append_nil, take_take, Nat.min_self])
  have hWord : 4 ≤ bs.length → WordRange (Bytes.toInt (bs.take 4)) := fun h =>
    (toInt_take_ofInt_eq_iff _ []).mp (by
      rw [(ofInt_take h).2, append_nil, take_take, Nat.min_self])
  cases s with
  | reg =>
    refine ⟨inRange_decode _, ?_⟩
    have hMask : masked (bs.drop 0) (63 :: []) = _ := masked_reg hLong
    rw [hNone] at hMask
    exact congrArg Except.ok hMask.symm
  | byte | angle =>
    refine ⟨hByte hLong, ?_⟩
    rw [dataBits, masked_full]
    exact congrArg Except.ok (ofInt_take hLong).1
  | word | addr =>
    refine ⟨hWord hLong, ?_⟩
    rw [dataBits, masked_full]
    exact congrArg Except.ok (ofInt_take hLong).2
  | entry =>
    have hFour : 4 < bs.length := hLong
    have hBase : 4 ≤ bs.length := by omega
    refine ⟨⟨hWord hBase, inRange_decode _⟩, ?_⟩
    rw [dataBits, masked_append (by simpa using hBase), masked_full, length_replicate,
      masked_reg hFour, hNone, ← (ofInt_take hBase).2]
    rfl
  | slice =>
    have hFive : 5 < bs.length := hLong
    have hFour : 4 < bs.length := by omega
    have hBase : 4 ≤ bs.length := by omega
    refine ⟨⟨hWord hBase, inRange_decode _, inRange_decode _⟩, ?_⟩
    rw [dataBits, masked_append (by simpa using hBase), masked_full, length_replicate,
      masked_reg hFour, masked_reg hFive, hNone, ← (ofInt_take hBase).2]
    rfl

-- The operands in bytes are in range, and are written to the bits that were read.
theorem encodeAll_decodeAll (slots : List Slot) (bs : Bytes) (hLong : total slots ≤ bs.length) :
    Forall₂ InRange slots (decodeAll slots bs) ∧
      encodeAll slots (decodeAll slots bs) = .ok (masked bs (slots.flatMap dataBits)) := by
  induction slots generalizing bs with
  | nil => exact ⟨.nil, by simp [encodeAll, masked]⟩
  | cons s slots ih =>
    rw [total] at hLong
    rcases encode_decode s bs (by omega) with ⟨hRange, hFirst⟩
    rcases ih (bs.drop s.size) (by rw [length_drop]; omega) with ⟨hRanges, hRest⟩
    refine ⟨.cons hRange hRanges, ?_⟩
    rw [decodeAll, encodeAll, hFirst, hRest, flatMap_cons,
      masked_append (by rw [length_dataBits]; omega), length_dataBits]
    rfl

end Slot

---- Instructions

-- The bits of an instruction that are read: the code, the operands, and nothing behind them.
def Op.dataBits (o : Op) : Bytes := (255 :: o.slots.flatMap Slot.dataBits).rightpad Instr.size 0

namespace Instr

-- A row of seven bytes without the bits that are not read.
def clear (f : Flavour) (row : Bytes) : Bytes :=
  (f.byCode? (Bytes.toNat (row.take 1))).elim row fun p => Bytes.masked row p.2.dataBits

-- An instruction of a flavour as it is read from bytes.
structure Canonical (f : Flavour) (i : Instr) : Prop where
  flavoured : i.Over f
  told : i.Told f
  inRange : i.InRange
  bare_eq : i.bare = i

theorem masked_dataBits {o : Op} {row : Bytes} (hSize : row.length = size) :
    Bytes.masked row o.dataBits =
      row.take 1 ++ (Bytes.masked (row.drop 1) (o.slots.flatMap dataBits) ++
        Bytes.zeros (size - (1 + total o.slots))) := by
  have hFlat := length_flatMap_dataBits o.slots
  have hRoom := total_slots_lt o
  have hBits : o.dataBits = List.replicate 1 255 ++ (o.slots.flatMap dataBits ++
      Bytes.zeros (size - (1 + total o.slots))) := by
    rw [Op.dataBits, rightpad, length_cons, hFlat, Nat.add_comm]
    rfl
  rw [hBits, Bytes.masked_append, Bytes.masked_full, length_replicate, Bytes.masked_append,
    Bytes.masked_zeros]
  · rw [length_drop, length_drop]
    omega
  · rw [length_drop]
    omega
  · rw [length_replicate]
    omega

theorem encode_decode {f : Flavour} {row : Bytes} {i : Instr} (hSize : row.length = size)
    (hDecode : decode f row = .ok i) : i.Canonical f ∧ i.encode = .ok (clear f row) := by
  cases hFound : f.byCode? (Bytes.toNat (row.take 1)) with
  | none =>
    rw [decode, hFound] at hDecode
    cases hDecode
  | some p =>
    rcases p with ⟨family, o⟩
    rw [decode, hFound] at hDecode
    cases hDecode
    have hCode : o.code? = some (Bytes.toNat (row.take 1)) := by simpa using find?_some hFound
    have hRest : (row.drop 1).length = 6 := by rw [length_drop, hSize, size]
    have hRoom := total_slots_lt o
    rw [size] at hRoom
    rcases Slot.encodeAll_decodeAll o.slots (row.drop 1) (by omega) with ⟨hRanges, hBody⟩
    refine ⟨⟨⟨mem_of_find?_eq_some hFound, ?_⟩, ?_, hRanges, ?_⟩, ?_⟩
    · exact hRanges.imp fun s o => Slot.accepts_of_inRange s o
    · rw [Told, Flavour.Tells, hCode]
      exact hFound
    · rw [bare, Slot.bare_decodeAll]
    · have hFirst : (row.take 1).length = 1 := by rw [length_take, hSize]; rfl
      have hFlat := Slot.length_flatMap_dataBits o.slots
      have hLength : (Bytes.masked (row.drop 1) (o.slots.flatMap Slot.dataBits)).length =
          Slot.total o.slots := by
        rw [Bytes.masked, length_zipWith]
        omega
      have hByte := Bytes.ofNat_toNat (row.take 1)
      rw [hFirst] at hByte
      rw [encode_op _ _ _ _ _ hBody, clear, hFound, hCode, Option.elim_some, Option.getD_some,
        hLength, hByte, masked_dataBits hSize]

theorem decode_ok_iff (f : Flavour) (row : Bytes) :
    (∃ i, decode f row = .ok i) ↔ ∃ p ∈ f.ops, p.2.code? = some (Bytes.toNat (row.take 1)) := by
  have hKnown : (∃ p ∈ f.ops, p.2.code? = some (Bytes.toNat (row.take 1))) ↔
      (f.byCode? (Bytes.toNat (row.take 1))).isSome := by
    simp [byCode?]
  rw [hKnown, decode]
  cases f.byCode? (Bytes.toNat (row.take 1)) <;> simp

end Instr

namespace Subroutine

---- Subroutines

def clearRows (f : Flavour) : Nat → Bytes → Bytes
  | 0, _ => []
  | n + 1, bs => clear f (bs.take size) ++ clearRows f n (bs.drop size)

-- The bytes of a subroutine with zeros for all padding.
def clear (f : Flavour) (raw : Bytes) : Bytes :=
  raw.take headerSize ++ clearRows f ((raw.length - headerSize) / Instr.size) (raw.drop headerSize)

-- Bytes with a header and whole instructions, each of which starts with the code of an instruction
-- of the flavour.
structure WellFormed (f : Flavour) (raw : Bytes) : Prop where
  header : headerSize ≤ raw.length
  rows : (raw.length - headerSize) % Instr.size = 0
  known : ∀ n, headerSize + n * Instr.size < raw.length →
      ∃ p ∈ f.ops, p.2.code? = some (raw.getD (headerSize + n * Instr.size) 0).toNat

variable {f : Flavour} {n : Nat} {raw : Bytes}

theorem decodeInstrs_ok_iff (hLength : bs.length = n * Instr.size) :
    (∃ js, decodeInstrs f n bs = .ok js) ↔
      ∀ k < n, ∃ p ∈ f.ops, p.2.code? = some (bs.getD (k * Instr.size) 0).toNat := by
  induction n generalizing bs with
  | zero => exact ⟨fun _ k _ => by omega, fun _ => ⟨[], rfl⟩⟩
  | succ n ih =>
    have hRest : (bs.drop Instr.size).length = n * Instr.size := by
      rw [length_drop, hLength, Nat.add_mul, Nat.one_mul, Nat.add_sub_cancel]
    have hCode : Bytes.toNat ((bs.take Instr.size).take 1) = (bs.getD (0 * Instr.size) 0).toNat := by
      cases bs <;> rfl
    have hBoth : (∃ js, decodeInstrs f (n + 1) bs = .ok js) ↔
        (∃ i, Instr.decode f (bs.take Instr.size) = .ok i) ∧
          ∃ js, decodeInstrs f n (bs.drop Instr.size) = .ok js := by
      constructor
      · rintro ⟨js, hJs⟩
        rcases Checked.binds_ok hJs with ⟨i, hFirst, rest, hRest, _⟩
        exact ⟨⟨i, hFirst⟩, rest, hRest⟩
      · rintro ⟨⟨i, hFirst⟩, rest, hRest⟩
        exact ⟨i :: rest, by rw [decodeInstrs, hFirst, hRest]; rfl⟩
    rw [hBoth, Instr.decode_ok_iff, ih hRest, hCode, forall_lt_succ_left]
    refine and_congr_right fun _ => forall₂_congr fun k _ => ?_
    have hShift : (bs.drop Instr.size).getD (k * Instr.size) 0 =
        bs.getD ((k + 1) * Instr.size) 0 := by
      rw [List.getD, List.getD, getElem?_drop, Nat.add_mul, Nat.one_mul, Nat.add_comm]
    rw [hShift]

theorem encodeInstrs_decodeInstrs {bs : Bytes} {js : List Instr}
    (hLength : bs.length = n * Instr.size) (hDecode : decodeInstrs f n bs = .ok js) :
    js.length = n ∧ (∀ i ∈ js, i.Canonical f) ∧ encodeInstrs js = .ok (clearRows f n bs) := by
  induction n generalizing bs js with
  | zero =>
    cases hDecode
    exact ⟨rfl, by simp, rfl⟩
  | succ n ih =>
    rw [Nat.add_mul] at hLength
    rcases Checked.binds_ok hDecode with ⟨i, hFirst, _, hRest, ⟨⟩⟩
    rcases encode_decode (length_take_of_le (by omega)) hFirst with ⟨hCanonical, hEncode⟩
    rcases ih (by rw [length_drop]; omega) hRest with ⟨hCount, hAll, hEncodeAll⟩
    refine ⟨by rw [length_cons, hCount], forall_mem_cons.mpr ⟨hCanonical, hAll⟩, ?_⟩
    rw [encodeInstrs, hEncode, hEncodeAll]
    rfl

theorem body_of_decode {s : Subroutine} (hDecode : decode f raw = .ok s) :
    headerSize ≤ raw.length ∧ (raw.length - headerSize) % Instr.size = 0 ∧
      ∃ js, decodeInstrs f ((raw.length - headerSize) / Instr.size) (raw.drop headerSize) = .ok js := by
  rw [decode] at hDecode
  simp only [length_drop] at hDecode
  by_cases hShort : raw.length < headerSize
  · rw [if_pos hShort] at hDecode
    cases hDecode
  by_cases hRows : (raw.length - headerSize) % Instr.size = 0
  · rw [if_neg hShort, if_neg (not_not.mpr hRows)] at hDecode
    rcases Checked.bind_ok hDecode with ⟨js, hBody, _⟩
    exact ⟨by omega, hRows, js, hBody⟩
  · rw [if_neg hShort, if_pos hRows] at hDecode
    cases hDecode

theorem wellFormed_iff (hHeader : headerSize ≤ raw.length)
    (hRows : (raw.length - headerSize) % Instr.size = 0) :
    WellFormed f raw ↔
      ∃ js, decodeInstrs f ((raw.length - headerSize) / Instr.size) (raw.drop headerSize) = .ok js := by
  have hWhole := Nat.div_mul_cancel (Nat.dvd_of_mod_eq_zero hRows)
  have hRow : ∀ k, headerSize + k * Instr.size < raw.length ↔
      k < (raw.length - headerSize) / Instr.size := by
    rw [Instr.size] at *
    omega
  rw [decodeInstrs_ok_iff (by rw [length_drop, hWhole])]
  simp only [List.getD, getElem?_drop, ← hRow]
  exact ⟨fun hWell => hWell.known, fun hKnown => ⟨hHeader, hRows, hKnown⟩⟩

theorem take_clear (hHeader : headerSize ≤ raw.length) (hInside : m + n ≤ headerSize) :
    ((clear f raw).drop m).take n = (raw.drop m).take n := by
  have hTake : (raw.take headerSize).length = headerSize := length_take_of_le hHeader
  rw [clear, drop_append_of_le_length (by omega),
    take_append_of_le_length (by rw [length_drop]; omega), drop_take, take_take,
    Nat.min_eq_left (by omega)]

-- The subroutine that is read has the bytes that are read, and is read from them again.
theorem encode_decode {s : Subroutine} (hDecode : decode f raw = .ok s) :
    s.encode = .ok (clear f raw) ∧ (clear f raw).length = raw.length ∧
      decode f (clear f raw) = .ok s := by
  rcases body_of_decode hDecode with ⟨hHeader, hRows, js, hBody⟩
  have hWhole := Nat.div_mul_cancel (Nat.dvd_of_mod_eq_zero hRows)
  have hLength : (raw.drop headerSize).length =
      (raw.length - headerSize) / Instr.size * Instr.size := by rw [length_drop, hWhole]
  rcases encodeInstrs_decodeInstrs hLength hBody with ⟨hCount, hCanonical, hEncode⟩
  rcases decodeInstrs_encodeInstrs f js fun i hMem => (hCanonical i hMem).flavoured with
    ⟨rows, js', hEncode', hLength', hDecode', hSame⟩
  obtain rfl : clearRows f _ (raw.drop headerSize) = rows :=
    Except.ok.inj (hEncode.symm.trans hEncode')
  have hBare : ∀ is : List Instr, (∀ i ∈ is, i.Canonical f) → is.map Instr.bare = is := by
    intro is hAll
    exact (map_congr_left fun i hMem => (hAll i hMem).bare_eq).trans (map_id is)
  have hAgain : js' = js := by
    rw [← hBare js hCanonical, ← hBare js' (encodeInstrs_decodeInstrs hLength' hDecode').2.1]
    exact hSame.mpr fun i hMem => ⟨(hCanonical i hMem).told, (hCanonical i hMem).inRange⟩
  subst hAgain
  rw [hCount] at hLength' hDecode'
  rw [decode_of_body f raw _ js' hHeader hLength hBody] at hDecode
  cases hDecode
  have hTake : (raw.take headerSize).length = headerSize := length_take_of_le hHeader
  have hDrop : (clear f raw).drop headerSize = clearRows f _ (raw.drop headerSize) :=
    drop_left' hTake
  have hFirst : (clear f raw).take 1 = raw.take 1 := take_clear hHeader (m := 0) (by decide)
  refine ⟨?_, ?_, ?_⟩
  · have hHead : raw.take headerSize = raw.take 1 ++ ((raw.drop 1).take 1 ++ (raw.drop 2).take 2) := by
      rw [show headerSize = 1 + (1 + 2) from rfl, take_add, take_add, drop_drop]
    rw [headerSize] at hHeader
    rw [encode_eq _ _ _ _ rfl rfl hEncode, (@Slot.ofInt_take raw 1 (by omega)).1,
      (Slot.ofInt_take (by rw [length_drop]; omega)).1,
      (Slot.ofInt_take (by rw [length_drop]; omega)).1, clear, hHead]
    simp
  · rw [clear, length_append]
    omega
  · rw [decode_of_body f (clear f raw) _ js' _ (hDrop ▸ hLength') (hDrop ▸ hDecode'), hFirst,
      take_clear hHeader (by decide), take_clear hHeader (by decide)]
    rw [clear, length_append]
    omega

-- Exactly the bytes with a header and whole instructions of the flavour are read. The subroutine
-- that is read has these bytes with zeros for their padding, from which it is read again.
theorem decode_wellFormed (f : Flavour) (raw : Bytes) :
    ((∃ s, decode f raw = .ok s) ↔ WellFormed f raw) ∧ ∀ s, decode f raw = .ok s →
        s.encode = .ok (clear f raw) ∧ (clear f raw).length = raw.length ∧
          decode f (clear f raw) = .ok s := by
  refine ⟨⟨?_, fun hWell => ?_⟩, fun s hDecode => encode_decode hDecode⟩
  · rintro ⟨s, hDecode⟩
    rcases body_of_decode hDecode with ⟨hHeader, hRows, hBody⟩
    exact (wellFormed_iff hHeader hRows).mpr hBody
  · rcases (wellFormed_iff hWell.header hWell.rows).mp hWell with ⟨js, hBody⟩
    have hWhole := Nat.div_mul_cancel (Nat.dvd_of_mod_eq_zero hWell.rows)
    exact ⟨_, decode_of_body f raw _ js hWell.header (by rw [length_drop, hWhole]) hBody⟩

-- A header and the freeing of a qubit, with ones for all padding.
def padded : Bytes := [0, 10, 7, 0, 38, 255, 255, 255, 255, 255, 255]

theorem decode_wellFormed_padded :
    WellFormed .nv padded ∧ ∃ s, decode .nv padded = .ok s ∧
      s.encode = .ok [0, 10, 7, 0, 38, 63, 0, 0, 0, 0, 0] ∧
      decode .nv [0, 10, 7, 0, 38, 63, 0, 0, 0, 0, 0] = .ok s := by
  rcases decode_wellFormed .nv padded with ⟨hExactly, hThen⟩
  have hClear : clear .nv padded = [0, 10, 7, 0, 38, 63, 0, 0, 0, 0, 0] := by decide +kernel
  have hSome : (decode .nv padded).toOption.isSome = true := by decide +kernel
  cases hDecode : decode .nv padded with
  | error e =>
    rw [hDecode] at hSome
    cases hSome
  | ok s =>
    rcases hThen s hDecode with ⟨hEncode, _, hAgain⟩
    exact ⟨hExactly.mp ⟨s, hDecode⟩, s, rfl, hEncode, hAgain⟩

end Subroutine

end QuantumNode
