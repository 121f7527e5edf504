import QuantumNode.Memory
import QuantumNode.Subroutine

/-
  The mapping of subroutines to nitrogen-vacancy hardware, which has one electron that controls
  rotations of the carbons. Each instruction becomes a block of instructions, with circuits of
  rotations for gates; branches then go to the starts of blocks. On its way a mapping knows which
  registers occur so far, and which addresses the qubit registers were last set to.
-/

namespace QuantumNode.Circuit

-- The exponent of all fixed angles: they are multiples of pi over 16.
def exponent : Int := 4

variable (line : Option HostLine)

def rot (op : Op) (qubit : Reg) (n : Int) : Instr :=
  .op .nv op [.reg qubit, .imm n, .imm exponent] line

def crot (op : Op) (electron carbon : Reg) (n : Int) : Instr :=
  .op .nv op [.reg electron, .reg carbon, .imm n, .imm exponent] line

def single (q : Reg) : Op → Option (List Instr)
  | .x => some [rot line .rotX q 16]
  | .y => some [rot line .rotY q 16]
  | .z => some [rot line .rotX q 24, rot line .rotY q 16, rot line .rotX q 8]
  | .h => some [rot line .rotY q 8, rot line .rotX q 16]
  | .k => some [rot line .rotX q 24, rot line .rotY q 16]
  | .s => some [rot line .rotX q 24, rot line .rotY q 24, rot line .rotX q 8]
  | .t => some [rot line .rotX q 24, rot line .rotY q 28, rot line .rotX q 8]
  | _ => none

def hadamard (q : Reg) : List Instr :=
  [rot line .rotY q 8, rot line .rotX q 16]

def notes (debug : Bool) (words : String) : List Instr :=
  if debug then [.note words] else []

def swap (debug : Bool) (line : Option HostLine) (e c : Reg) : List Instr :=
  notes debug "begin SWAP"
    ++ [crot line .crotX e c 8, rot line .rotX e 24, rot line .rotY e 16, rot line .rotZ c 24,
        crot line .crotX e c 8, rot line .rotX e 8, rot line .rotY e 8, rot line .rotX c 8,
        rot line .rotZ c 8, crot line .crotX e c 8, rot line .rotY e 16, rot line .rotZ c 16]
    ++ notes debug "end SWAP"

-- Flip a carbon if the electron is set.
def electronCnot (e c : Reg) : List Instr :=
  [crot line .crotX e c 8, rot line .rotZ e 24, rot line .rotX c 24]

-- Turn the phase if the electron and a carbon are set.
def electronCphase (e c : Reg) : List Instr :=
  [rot line .rotY c 8, crot line .crotX e c 8, rot line .rotZ e 24, rot line .rotX c 24,
   rot line .rotY c 24]

-- Flip the electron if a carbon is set.
def carbonCnot (e c : Reg) : List Instr :=
  hadamard line e ++ electronCphase line e c ++ hadamard line e

def moveOut (e c : Reg) : List Instr :=
  [rot line .rotY e 8, crot line .crotY e c 24, rot line .rotX e 24, crot line .crotX e c 8]

def moveIn (e c : Reg) : List Instr :=
  [rot line .rotY e 8, crot line .crotY e c 24, rot line .rotX e 24, crot line .crotX e c 8,
   rot line .rotY e 24, rot line .rotZ e 24]

end QuantumNode.Circuit

namespace QuantumNode

structure Known where
  used : List Reg
  values : Table Reg Int
  deriving DecidableEq

namespace Known

def empty : Known := ⟨[], []⟩

def assign? : Instr → Option (Reg × Int)
  | .op _ .set (.reg r :: .imm v :: _) _ => if r.bank = .q then some (r, v) else none
  | _ => none

def observe (k : Known) (i : Instr) : Known :=
  { used := k.used ++ i.operands.filterMap Operand.reg?
    values := match assign? i with
      | some (r, v) => Table.put r v k.values
      | none => k.values }

def value? (k : Known) (r : Reg) : Option Int :=
  Table.get? r k.values

def unused? (k : Known) : Option Reg :=
  (Reg.ofBank .q).find? fun r => !k.used.contains r

end Known

end QuantumNode

namespace QuantumNode.Mapping
open Circuit

-- Whether notes are added, and whether angles have a fixed exponent.
structure Options where
  debug : Bool
  hardware : Bool
  deriving DecidableEq

def kindName (family : Family) (op : Op) : String :=
  family.name ++ "." ++ op.label ++ "Instruction"

def noCircuit (family : Family) (op : Op) (operands : List Operand) : Checked (List Instr) :=
  .error (.mapping (.unknownInstr (Instr.op family op operands none).text (kindName family op)))

-- The angle of a rotation in the form that hardware takes: the exponent is fixed, and smaller
-- exponents are scaled to it.
def hardwareAngle (i : Instr) (n d : Operand) : Checked (List Operand) :=
  match n, d with
  | .imm n, .imm d =>
    if 0 ≤ d ∧ d ≤ exponent then
      .ok [.imm (n * Nat.pow 2 (exponent - d).toNat), .imm exponent]
    else .error (.mapping (.badExponent i.text (Operand.imm d).text))
  | .template _, .imm d =>
    if 0 ≤ d ∧ d ≤ exponent then .error .noAttribute
    else .error (.mapping (.badExponent i.text (Operand.imm d).text))
  | _, _ => .error .noAttribute

variable (o : Options)

def rotation (op : Op) (q : Reg) (n d : Operand)
    (line : Option HostLine) : Checked (List Instr) := do
  let angle ← if o.hardware then
      hardwareAngle (.op .vanilla op [.reg q, n, d] line) n d
    else pure [n, d]
  return [.op .nv op (.reg q :: angle) line]

-- Map a gate on two carbons: the first one is exchanged with the electron before and after.
def viaElectron (k : Known) (carbon : Reg) (line : Option HostLine)
    (gate : Reg → List Instr) : Checked (List Instr) :=
  match k.unused? with
  | none => .error (.mapping .noRegister)
  | some e =>
    .ok (.op .core .set [.reg e, .imm 0] line
      :: (swap o.debug line e carbon ++ gate e ++ swap o.debug line e carbon))

-- Map a gate on two qubits. The electron has address zero. A move between registers of unknown
-- address is taken to start at the electron.
def twoQubit (k : Known) (op : Op) (a b : Reg) (line : Option HostLine) : Checked (List Instr) :=
  match k.value? a, k.value? b with
  | some x, some y =>
    if x = y then .error .unmet
    else
      match op with
      | .cnot =>
        if x = 0 then .ok (electronCnot line a b)
        else if y = 0 then .ok (carbonCnot line b a)
        else viaElectron o k a line fun e => electronCnot line e b
      | .cphase =>
        if x = 0 then .ok (electronCphase line a b)
        else if y = 0 then .ok (electronCphase line b a)
        else viaElectron o k a line fun e => electronCphase line e b
      | .mov =>
        if x = 0 then .ok (moveOut line a b)
        else if y = 0 then .ok (moveIn line b a)
        else .error (.mapping (.badMove x y))
      | _ => noCircuit .vanilla op [.reg a, .reg b]
  | _, _ => if op = .mov then .ok (moveOut line a b) else .error .unmet

def expand (k : Known) : Instr → Checked (List Instr)
  | .op .vanilla op [.reg q] line =>
    match single line q op with
    | some block => .ok block
    | none => noCircuit .vanilla op [.reg q]
  | .op .vanilla op [.reg q, .reg r] line => twoQubit o k op q r line
  | .op .vanilla op [.reg q, n, d] line => rotation o op q n d line
  | .op .nv op [.reg q, n, d] line =>
    match op with
    | .rotX | .rotY | .rotZ => noCircuit .nv op [.reg q, n, d]
    | _ => .ok [.op .nv op [.reg q, n, d] line]
  | i => .ok [i]

def blocks (o : Options) : Known → List Instr → Checked (List (List Instr) × Known)
  | k, [] => .ok ([], k)
  | k, i :: rest => do
    let k := k.observe i
    let block ← expand o k i
    let (others, k) ← blocks o k rest
    return (block :: others, k)

def startOf (bs : List (List Instr)) (line : Nat) : Nat :=
  (bs.take line).flatten.length

def target? : Instr → Option (Nat × Int)
  | .op _ op operands _ =>
    let place := match op with
      | .jmp => some 0
      | .bez | .bnz => some 1
      | .beq | .bne | .blt | .bge => some 2
      | _ => none
    place.bind fun p =>
      match operands[p]? with
      | some (.imm v) => some (p, v)
      | _ => none
  | .note _ => none

def setTarget (place : Nat) (line : Int) : Instr → Instr
  | .op family op operands host => .op family op (operands.set place (.imm line)) host
  | .note words => .note words

def retarget (bs : List (List Instr)) (i : Instr) : Checked Instr :=
  match target? i with
  | none => .ok i
  | some (place, line) =>
    if 0 ≤ line ∧ line ≤ bs.length then .ok (setTarget place (startOf bs line.toNat) i)
    else .error .noKey

def retargetAll (bs : List (List Instr)) : List Instr → Checked (List Instr)
  | [] => .ok []
  | i :: rest => do
    let i ← retarget bs i
    return i :: (← retargetAll bs rest)

-- Whether a branch goes behind the last line.
def leaves (size : Nat) (i : Instr) : Bool :=
  match target? i with
  | some (_, line) => line = size
  | none => false

def landing : Instr := .op .core .set [.reg ⟨.c, 15⟩, .imm 1337] none

-- Map a subroutine. If a branch goes behind the last line, there is an instruction for it to go to.
def toNv (s : Subroutine) : Checked (Subroutine × Known) := do
  let (bs, known) ← blocks o .empty s.instrs
  let instrs ← retargetAll bs bs.flatten
  let tail := if bs.flatten.any (leaves bs.length) then [landing] else []
  return ({ s with instrs := instrs ++ tail }, known)

end QuantumNode.Mapping
