import QuantumNode.HostLine

/-
  Instructions. A line is split into words at a separator that leaves bracketed parts whole. An
  instruction is an operation of a family with operands that fit its shape, and a flavour is an
  instruction set that adds the gates of a kind of hardware to the core.
-/

namespace QuantumNode.Text.Words

def isLetter (c : Char) : Bool :=
  ('a' ≤ c && c ≤ 'z') || ('A' ≤ c && c ≤ 'Z')

def isNameChar (c : Char) : Bool :=
  isLetter c || Numeral.isDigit c || c = '_'

-- All characters that a name may have.
def nameChars : List Char :=
  ("abcdefghijklmnopqrstuvwxyzABCDEFGHIJKLMNOPQRSTUVWXYZ0123456789_").toList

-- A name starts with a letter, has letters, digits and underscores only, and leaves at least one of
-- these characters unused.
def isName : List Char → Checked Bool
  | [] => .error .noIndex
  | c :: rest =>
    .ok (isLetter c && (c :: rest).all isNameChar
      && !(nameChars.all fun d => (c :: rest).contains d))

-- A separator has at least one character.
structure Separator where
  chars : List Char
  nonempty : chars ≠ []

namespace Separator

def space : Separator :=
  ⟨[' '], by simp⟩

def ofChars (chars : List Char) : Checked Separator :=
  if h : chars = [] then .error (.language .separatorEmpty) else .ok ⟨chars, h⟩

end Separator

structure Brackets where
  opening : Char
  closing : Char
  deriving DecidableEq

namespace Brackets

def round : Brackets := ⟨'(', ')'⟩
def square : Brackets := ⟨'[', ']'⟩
def curly : Brackets := ⟨Char.ofNat 123, Char.ofNat 125⟩

def chars (b : Brackets) : List Char :=
  [b.opening, b.closing]

-- Read a pair of brackets: two different characters among which the separator does not occur.
def ofChars (sep : Separator) : List Char → Checked Brackets
  | [o, c] =>
    if o = c then .error (.language .bracketsNotDistinct)
    else if occurs sep.chars [o, c] then .error (.language .separatorInBrackets)
    else .ok ⟨o, c⟩
  | _ => .error (.language .bracketsNotDistinct)

end Brackets

variable (sep : Separator)

def opensFirst (b : Brackets) (line : List Char) : Bool :=
  match cut? [b.opening] line, cut? sep.chars line with
  | some (front, _), some (word, _) => front.length < word.length
  | _, _ => false

-- The text that ends the first word of a line: the separator, or a closing bracket and the
-- separator if the word opens one.
def stopMark (brackets : Option Brackets) (line : List Char) : List Char :=
  match brackets with
  | some b => if opensFirst sep b line then b.closing :: sep.chars else sep.chars
  | none => sep.chars

theorem stopMark_ne_nil (brackets : Option Brackets) (line : List Char) :
    stopMark sep brackets line ≠ [] := by
  unfold stopMark
  split
  · split
    · simp
    · exact sep.nonempty
  · exact sep.nonempty

-- Cut a line into words. A word keeps all of its stop mark but the last character.
def cutWords (sep : Separator) (brackets : Option Brackets)
    (line : List Char) : Checked (List (List Char)) :=
  if line = [] then .ok []
  else
    match h : cut? (stopMark sep brackets line) line with
    | none => .error (.language .unclosedBracket)
    | some (front, back) =>
      match cutWords sep brackets back with
      | .ok words => .ok ((front ++ (stopMark sep brackets line).dropLast) :: words)
      | .error fault => .error fault
termination_by line.length
decreasing_by
  have := cut?_length h
  have : 0 < (stopMark sep brackets line).length :=
    List.length_pos_iff.2 (stopMark_ne_nil sep brackets line)
  omega

-- Split a line into words at a separator, after removing outer white space.
def split (brackets : Option Brackets) (line : List Char) : Checked (List (List Char)) :=
  cutWords sep brackets (strip line ++ sep.chars)

end QuantumNode.Text.Words

namespace QuantumNode

---- Registers

-- The banks of registers: standard registers, constants, qubit addresses and measurement outcomes.
inductive Bank
  | r
  | c
  | q
  | m
  deriving DecidableEq, Inhabited

namespace Bank

def all : List Bank := [r, c, q, m]

def letter : Bank → Char
  | r => 'R'
  | c => 'C'
  | q => 'Q'
  | m => 'M'

def code : Bank → Nat
  | r => 0
  | c => 1
  | q => 2
  | m => 3

def ofLetter? : Char → Option Bank
  | 'R' => some r
  | 'C' => some c
  | 'Q' => some q
  | 'M' => some m
  | _ => none

def ofCode (n : Nat) : Bank :=
  match n % 4 with
  | 0 => r
  | 1 => c
  | 2 => q
  | _ => m

end Bank

structure Reg where
  bank : Bank
  index : Int
  deriving DecidableEq, Inhabited

namespace Reg

def text (r : Reg) : String :=
  s!"{r.bank.letter}{r.index}"

def perBank : Nat := 16

def ofBank (b : Bank) : List Reg :=
  (List.range perBank).map fun i => ⟨b, Int.ofNat i⟩

def parse : List Char → Checked Reg
  | [] => .error .noIndex
  | c :: rest =>
    match Bank.ofLetter? c with
    | none => .error (.language (.badRegisterName c))
    | some b =>
      if Text.Numeral.isNumeral rest then .ok ⟨b, Text.Numeral.value rest⟩
      else .error (.language (.expectedConstant (String.ofList rest)))

end Reg

---- Operands

-- A place in an array: a constant or the value of a register. A constant may be shown under other
-- words than its numeral.
inductive Index
  | reg (r : Reg)
  | int (value : Int)
  | shown (value : Int) (words : String)
  deriving DecidableEq

def Index.text : Index → String
  | reg r => r.text
  | int v => toString v
  | shown _ words => words

/-
  Operands. A number in a draft is `int`; it becomes `imm` in an instruction. A number that is shown
  under other words than its numeral is `shown` in both. Labels and templates are names for values
  that are known later.
-/
inductive Operand
  | reg (r : Reg)
  | imm (value : Int)
  | int (value : Int)
  | shown (value : Int) (words : String)
  | addr (address : Int)
  | entry (address : Int) (index : Index)
  | slice (address : Int) (start stop : Index)
  | label (name : String)
  | template (name : String)
  deriving DecidableEq

namespace Operand

def text : Operand → String
  | reg r => r.text
  | imm v => toString v
  | int v => toString v
  | shown _ words => words
  | addr a => s!"@{a}"
  | entry a i =>
    let place := i.text
    s!"@{a}[{place}]"
  | slice a start stop =>
    let lo := start.text
    let hi := stop.text
    s!"@{a}[{lo}:{hi}]"
  | label name => name
  | template name => name

def template? : Operand → Option String
  | template name => some name
  | _ => none

def number? : Operand → Option Int
  | imm v | int v | shown v _ => some v
  | _ => none

def reg? : Operand → Option Reg
  | reg r => some r
  | _ => none

end Operand

---- Operations

-- Operations, in the order of their numbering.
inductive Op
  | qalloc | init
  | array | set
  | store | load | undef | lea
  | jmp | bez | bnz | beq | bne | blt | bge
  | add | sub | addm | subm
  | x | y | z | h | s | k | t
  | rotX | rotY | rotZ
  | cnot | cphase
  | meas | measBasis
  | createEpr | recvEpr
  | waitAll | waitAny | waitSingle
  | qfree
  | retReg | retArr
  | crotX | crotY | crotZ
  | mov
  | breakpoint
  deriving DecidableEq, Inhabited

namespace Op

def all : List Op :=
  [qalloc, init, array, set, store, load, undef, lea, jmp, bez, bnz, beq, bne, blt, bge,
   add, sub, addm, subm, x, y, z, h, s, k, t, rotX, rotY, rotZ, cnot, cphase, meas,
   measBasis, createEpr, recvEpr, waitAll, waitAny, waitSingle, qfree, retReg, retArr,
   crotX, crotY, crotZ, mov, breakpoint]

def name : Op → String
  | qalloc => "qalloc"
  | init => "init"
  | array => "array"
  | set => "set"
  | store => "store"
  | load => "load"
  | undef => "undef"
  | lea => "lea"
  | jmp => "jmp"
  | bez => "bez"
  | bnz => "bnz"
  | beq => "beq"
  | bne => "bne"
  | blt => "blt"
  | bge => "bge"
  | add => "add"
  | sub => "sub"
  | addm => "addm"
  | subm => "subm"
  | x => "x"
  | y => "y"
  | z => "z"
  | h => "h"
  | s => "s"
  | k => "k"
  | t => "t"
  | rotX => "rot_x"
  | rotY => "rot_y"
  | rotZ => "rot_z"
  | cnot => "cnot"
  | cphase => "cphase"
  | meas => "meas"
  | measBasis => "meas_basis"
  | createEpr => "create_epr"
  | recvEpr => "recv_epr"
  | waitAll => "wait_all"
  | waitAny => "wait_any"
  | waitSingle => "wait_single"
  | qfree => "qfree"
  | retReg => "ret_reg"
  | retArr => "ret_arr"
  | crotX => "crot_x"
  | crotY => "crot_y"
  | crotZ => "crot_z"
  | mov => "mov"
  | breakpoint => "breakpoint"

def title (op : Op) : String :=
  op.name.map Char.toUpper

def ofName? (name : String) : Option Op :=
  all.find? fun op => op.name == name

def parse (name : String) : Checked Op :=
  match ofName? name with
  | some op => .ok op
  | none => .error (.language (.unknownInstr name))

-- The branch that is taken exactly when the given one is not.
def flip : Op → Checked Op
  | beq => .ok bne
  | bne => .ok beq
  | blt => .ok bge
  | bge => .ok blt
  | bez => .ok bnz
  | bnz => .ok bez
  | op => .error (.language (.notABranch op.title))

-- The number of an operation in encoded subroutines. Numbers of operations that never occur in one
-- flavour may coincide.
def code? : Op → Option Nat
  | qalloc => some 1
  | init => some 2
  | array => some 3
  | set => some 4
  | store => some 5
  | load => some 6
  | undef => some 7
  | lea => some 8
  | jmp => some 9
  | bez => some 10
  | bnz => some 11
  | beq => some 12
  | bne => some 13
  | blt => some 14
  | bge => some 15
  | add => some 16
  | sub => some 17
  | addm => some 18
  | subm => some 19
  | x => some 20
  | y => some 21
  | z => some 22
  | h => some 23
  | s => some 24
  | k => some 25
  | t => some 26
  | rotX => some 27
  | rotY => some 28
  | rotZ => some 29
  | cnot => some 30
  | cphase => some 31
  | meas => some 32
  | createEpr => some 33
  | recvEpr => some 34
  | waitAll => some 35
  | waitAny => some 36
  | waitSingle => some 37
  | qfree => some 38
  | retReg => some 39
  | retArr => some 40
  | measBasis => some 41
  | crotX => some 30
  | crotY => some 31
  | crotZ => none
  | mov => some 41
  | breakpoint => some 100

end Op

-- Places for operands: registers, one-byte numbers, one-byte numbers that a template may stand for,
-- four-byte numbers, addresses, array entries and array slices.
inductive Slot
  | reg
  | byte
  | angle
  | word
  | addr
  | entry
  | slice
  deriving DecidableEq

namespace Op

def slots : Op → List Slot
  | qalloc | init | qfree | retReg => [.reg]
  | x | y | z | h | s | k | t => [.reg]
  | array | lea => [.reg, .addr]
  | set | bez | bnz => [.reg, .word]
  | store | load => [.reg, .entry]
  | undef | waitSingle => [.entry]
  | jmp => [.word]
  | beq | bne | blt | bge => [.reg, .reg, .word]
  | add | sub => [.reg, .reg, .reg]
  | addm | subm | recvEpr => [.reg, .reg, .reg, .reg]
  | rotX | rotY | rotZ => [.reg, .angle, .angle]
  | cnot | cphase | mov | meas => [.reg, .reg]
  | measBasis => [.reg, .reg, .byte, .byte, .byte, .byte]
  | createEpr => [.reg, .reg, .reg, .reg, .reg]
  | waitAll | waitAny => [.slice]
  | retArr => [.addr]
  | crotX | crotY | crotZ => [.reg, .reg, .byte, .byte]
  | breakpoint => [.byte, .byte]

-- Names for an operation's operands, with their positions. Operations whose operands have no
-- meaning of their own have none.
def fields : Op → List (String × Nat)
  | qalloc | init | qfree => [("qreg", 0)]
  | x | y | z | h | s | k | t => [("qreg", 0)]
  | array => [("size", 0)]
  | jmp => [("line", 0)]
  | bez | bnz => [("line", 1)]
  | beq | bne | blt | bge => [("line", 2)]
  | add | sub => [("regout", 0), ("regin0", 1), ("regin1", 2)]
  | addm | subm => [("regout", 0), ("regin0", 1), ("regin1", 2), ("regmod", 3)]
  | rotX | rotY | rotZ => [("qreg", 0), ("angle_num", 1), ("angle_denom", 2)]
  | cnot | cphase | mov => [("qreg0", 0), ("qreg1", 1)]
  | meas => [("qreg", 0), ("creg", 1)]
  | measBasis =>
    [("qreg", 0), ("creg", 1), ("angle_num_x1", 2), ("angle_num_y", 3),
     ("angle_num_x2", 4), ("angle_denom", 5)]
  | createEpr =>
    [("remote_node_id", 0), ("epr_socket_id", 1), ("qubit_addr_array", 2),
     ("arg_array", 3), ("ent_results_array", 4)]
  | recvEpr =>
    [("remote_node_id", 0), ("epr_socket_id", 1), ("qubit_addr_array", 2), ("ent_results_array", 3)]
  | crotX | crotY | crotZ =>
    [("qreg0", 0), ("qreg1", 1), ("angle_num", 2), ("angle_denom", 3)]
  | breakpoint => [("action", 0), ("role", 1)]
  | set | store | load | undef | lea | waitAll | waitAny | waitSingle | retReg | retArr => []

end Op

---- Instructions

-- Families of instructions: the classical core, the gates of generic hardware and the gates of
-- nitrogen-vacancy hardware.
inductive Family
  | core
  | vanilla
  | nv
  deriving DecidableEq, Inhabited

def Family.name : Family → String
  | core => "core"
  | vanilla => "vanilla"
  | nv => "nv"

def Op.label : Op → String
  | .qalloc => "QAlloc"
  | .init => "Init"
  | .array => "Array"
  | .set => "Set"
  | .store => "Store"
  | .load => "Load"
  | .undef => "Undef"
  | .lea => "Lea"
  | .jmp => "Jmp"
  | .bez => "Bez"
  | .bnz => "Bnz"
  | .beq => "Beq"
  | .bne => "Bne"
  | .blt => "Blt"
  | .bge => "Bge"
  | .add => "Add"
  | .sub => "Sub"
  | .addm => "Addm"
  | .subm => "Subm"
  | .x => "GateX"
  | .y => "GateY"
  | .z => "GateZ"
  | .h => "GateH"
  | .s => "GateS"
  | .k => "GateK"
  | .t => "GateT"
  | .rotX => "RotX"
  | .rotY => "RotY"
  | .rotZ => "RotZ"
  | .cnot => "Cnot"
  | .cphase => "Cphase"
  | .meas => "Meas"
  | .measBasis => "MeasBasis"
  | .createEpr => "CreateEPR"
  | .recvEpr => "RecvEPR"
  | .waitAll => "WaitAll"
  | .waitAny => "WaitAny"
  | .waitSingle => "WaitSingle"
  | .qfree => "QFree"
  | .retReg => "RetReg"
  | .retArr => "RetArr"
  | .crotX => "ControlledRotX"
  | .crotY => "ControlledRotY"
  | .crotZ => "ControlledRotZ"
  | .mov => "Mov"
  | .breakpoint => "Breakpoint"

-- The operand that a slot holds for a given one: numbers become immediates, and only angles may be
-- templates.
def Slot.fit? : Slot → Operand → Option Operand
  | .reg, .reg r => some (.reg r)
  | .byte, .int v => some (.imm v)
  | .byte, .imm v => some (.imm v)
  | .byte, .shown v words => some (.shown v words)
  | .angle, .int v => some (.imm v)
  | .angle, .imm v => some (.imm v)
  | .angle, .shown v words => some (.shown v words)
  | .angle, .template name => some (.template name)
  | .word, .int v => some (.imm v)
  | .word, .imm v => some (.imm v)
  | .word, .shown v words => some (.shown v words)
  | .addr, .addr a => some (.addr a)
  | .entry, .entry a i => some (.entry a i)
  | .slice, .slice a lo hi => some (.slice a lo hi)
  | _, _ => none

def Slot.fitAll? : List Slot → List Operand → Option (List Operand)
  | [], [] => some []
  | s :: slots, o :: operands =>
    match s.fit? o, fitAll? slots operands with
    | some o', some rest => some (o' :: rest)
    | _, _ => none
  | _, _ => none

-- An instruction, or a note between instructions that has no effect.
inductive Instr
  | op (family : Family) (op : Op) (operands : List Operand) (line : Option HostLine)
  | note (words : String)
  deriving DecidableEq, Inhabited

namespace Instr

def ofOperands (family : Family) (o : Op) (operands : List Operand)
    (line : Option HostLine) : Checked Instr :=
  match Slot.fitAll? o.slots operands with
  | some fitted => .ok (op family o fitted line)
  | none => .error .unmet

def operands : Instr → List Operand
  | op _ _ operands _ => operands
  | note _ => []

def line : Instr → Option HostLine
  | op _ _ _ line => line
  | note _ => none

def op? : Instr → Option Op
  | op _ o _ _ => some o
  | note _ => none

def text : Instr → String
  | op _ o operands _ => " ".intercalate (o.name :: operands.map Operand.text)
  | note words => "# " ++ words

def listing (i : Instr) : String :=
  HostLine.margin i.line ++ i.text

def writes : Instr → List Reg
  | op _ .set (.reg r :: _) _ => [r]
  | op _ .load (.reg r :: _) _ => [r]
  | op _ .lea (.reg r :: _) _ => [r]
  | op _ .add (.reg r :: _) _ => [r]
  | op _ .sub (.reg r :: _) _ => [r]
  | op _ .addm (.reg r :: _) _ => [r]
  | op _ .subm (.reg r :: _) _ => [r]
  | op _ .meas (_ :: .reg r :: _) _ => [r]
  | op _ .measBasis (_ :: .reg r :: _) _ => [r]
  | _ => []

def fields : Instr → List (String × Operand)
  | op _ o operands _ =>
    o.fields.filterMap fun (name, i) => operands[i]?.map fun v => (name, v)
  | note _ => []

def setField (i : Instr) (name : String) (value : Operand) : Instr :=
  match i with
  | op family o operands line =>
    match o.fields.lookup name with
    | some place => op family o (operands.set place value) line
    | none => i
  | note _ => i

end Instr

-- Whether a branch is taken for the values of its registers. A test for order needs both values; a
-- test for equality compares undefined values too.
def Op.condition : Op → List (Option Int) → Checked Bool
  | .bez, [a] => .ok (a == some 0)
  | .bnz, [a] => .ok (a != some 0)
  | .beq, [a, b] => .ok (a == b)
  | .bne, [a, b] => .ok (a != b)
  | .blt, [some a, some b] => .ok (a < b)
  | .bge, [some a, some b] => .ok (b ≤ a)
  | .blt, [_, _] => .error .mistyped
  | .bge, [_, _] => .error .mistyped
  | .bez, _ | .bnz, _ | .beq, _ | .bne, _ | .blt, _ | .bge, _ => .error .mistyped
  | _, _ => .error .noAttribute

---- Flavours

inductive Flavour
  | vanilla
  | nv
  deriving DecidableEq, Inhabited

namespace Flavour

def coreOps : List Op :=
  [.qalloc, .init, .array, .set, .store, .load, .undef, .lea, .jmp, .bez, .bnz, .beq, .bne,
   .blt, .bge, .add, .sub, .addm, .subm, .meas, .measBasis, .createEpr, .recvEpr, .waitAll,
   .waitAny, .waitSingle, .qfree, .retReg, .retArr, .breakpoint]

def gates : Flavour → List Op
  | vanilla =>
    [.x, .y, .z, .h, .s, .k, .t, .rotX, .rotY, .rotZ, .cnot, .cphase, .mov]
  | nv => [.rotX, .rotY, .rotZ, .crotX, .crotY]

-- The gates that are described for the nv flavour, whether it has them or not.
def describedNv : List Op :=
  [.x, .y, .z, .h] ++ gates nv

def family : Flavour → Family
  | vanilla => .vanilla
  | nv => .nv

variable (f : Flavour)

-- All instructions of a flavour. The gates come first, so that a gate wins over a core instruction
-- with the same code.
def ops : List (Family × Op) :=
  f.gates.map (fun o => (f.family, o)) ++ coreOps.map (fun o => (.core, o))

def byCode? (code : Nat) : Option (Family × Op) :=
  f.ops.find? fun (_, o) => o.code? == some code

def byName? (name : String) : Option (Family × Op) :=
  f.ops.find? fun (_, o) => o.name == name

def byOp? (op : Op) : Option (Family × Op) :=
  f.ops.find? fun (_, o) => o == op

end Flavour

end QuantumNode
