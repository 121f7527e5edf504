import QuantumNode.Instr

/-
  Subroutines: instructions that a node runs for an application, with the version of the language
  they are written in. An instruction is encoded by the code of its operation, its operands in the
  order of their slots, and zeros up to seven bytes.
-/

namespace QuantumNode
open Bytes Instr

-- A register takes one byte: two bits for its bank and four for its place.
def Reg.encode (r : Reg) : UInt8 :=
  UInt8.ofNat (r.bank.code + 4 * (r.index % 16).toNat)

def Reg.decode (b : UInt8) : Reg :=
  ⟨Bank.ofCode b.toNat, ((b.toNat / 4) % 16 : Nat)⟩

namespace Slot

def size : Slot → Nat
  | reg | byte | angle => 1
  | word | addr => 4
  | entry => 5
  | slice => 6

-- The bytes of an operand. Templates have no value yet, and the places of entries and slices have
-- to be registers.
def encode : Slot → Operand → Checked Bytes
  | .reg, .reg r => .ok [r.encode]
  | .byte, .imm v | .byte, .shown v _ => .ok (ofInt 1 v)
  | .angle, .imm v | .angle, .shown v _ => .ok (ofInt 1 v)
  | .word, .imm v | .word, .shown v _ => .ok (ofInt 4 v)
  | .addr, .addr a => .ok (ofInt 4 a)
  | .entry, .entry a (.reg i) => .ok (ofInt 4 a ++ [i.encode])
  | .entry, .entry _ _ => .error .unmet
  | .slice, .slice a (.reg lo) (.reg hi) => .ok (ofInt 4 a ++ [lo.encode, hi.encode])
  | .slice, .slice _ _ _ => .error .unmet
  | _, _ => .error .noAttribute

def encodeAll : List Slot → List Operand → Checked Bytes
  | s :: slots, o :: operands => do
    let first ← s.encode o
    let rest ← encodeAll slots operands
    return first ++ rest
  | _, _ => .ok []

def regAt (bs : Bytes) (place : Nat) : Reg :=
  Reg.decode (bs.getD place 0)

def decode (s : Slot) (bs : Bytes) : Operand :=
  match s with
  | .reg => .reg (regAt bs 0)
  | .byte | .angle => .imm (toNat (bs.take 1))
  | .word => .imm (toInt (bs.take 4))
  | .addr => .addr (toInt (bs.take 4))
  | .entry => .entry (toInt (bs.take 4)) (.reg (regAt bs 4))
  | .slice => .slice (toInt (bs.take 4)) (.reg (regAt bs 4)) (.reg (regAt bs 5))

def decodeAll : List Slot → Bytes → List Operand
  | [], _ => []
  | s :: slots, bs => s.decode bs :: decodeAll slots (bs.drop s.size)

end Slot

namespace Instr

def size : Nat := 7

def encode : Instr → Checked Bytes
  | op _ o operands _ => do
    let body ← Slot.encodeAll o.slots operands
    let bytes := ofNat 1 (o.code?.getD 0) ++ body
    return bytes ++ zeros (size - bytes.length)
  | note _ => .ok []

def decode (flavour : Flavour) (bs : Bytes) : Checked Instr :=
  match flavour.byCode? (toNat (bs.take 1)) with
  | none => .error .noKey
  | some (family, o) => .ok (op family o (Slot.decodeAll o.slots (bs.drop 1)) none)

end Instr

structure Version where
  major : Int
  minor : Int
  deriving DecidableEq

namespace Version

def current : Version := ⟨0, 10⟩

def text : Option Version → String
  | some v => s!"({v.major}, {v.minor})"
  | none => "None"

end Version

def appIdText : Option Int → String
  | some a => toString a
  | none => "None"

def argumentsText (arguments : List String) : String :=
  if arguments.isEmpty then "" else "(" ++ ",".intercalate arguments ++ ")"

structure Subroutine where
  version : Option Version
  appId : Option Int
  arguments : List String
  instrs : List Instr
  deriving DecidableEq, Inhabited

namespace Subroutine

def fill (values : Option (List (String × Int))) : List Operand → Checked (List Operand)
  | [] => .ok []
  | .template name :: rest =>
    match values with
    | none => .error .unmet
    | some table =>
      match table.lookup name with
      | none => .error .noKey
      | some v => do return .int v :: (← fill values rest)
  | o :: rest => do return o :: (← fill values rest)

def fillAll (values : Option (List (String × Int))) : List Instr → Checked (List Instr)
  | [] => .ok []
  | .op family o operands _ :: rest => do
    let filled ← fill values operands
    let i ← ofOperands family o filled none
    return i :: (← fillAll values rest)
  | i :: rest => do return i :: (← fillAll values rest)

variable (s : Subroutine)

def instantiate (appId : Int) (values : Option (List (String × Int))) : Checked Subroutine := do
  let instrs ← fillAll values s.instrs
  return { s with instrs := instrs, appId := some appId }

def listingLine (n : Nat) : Instr → String
  | .note words => "# " ++ words ++ "\n"
  | i => Text.padLeft 4 (toString n) ++ " " ++ i.listing ++ "\n"

def listingLines : Nat → List Instr → String
  | _, [] => ""
  | n, i :: rest => listingLine n i ++ listingLines (n + 1) rest

def text : String :=
  "Subroutine" ++ argumentsText s.arguments ++ "\n"
    ++ "NetQASM version: " ++ Version.text s.version ++ "\n"
    ++ "App ID: " ++ appIdText s.appId ++ "\n"
    ++ " LN | HLN | CMD\n" ++ listingLines 0 s.instrs

def headerSize : Nat := 4

def encodeInstrs : List Instr → Checked Bytes
  | [] => .ok []
  | i :: rest => do return (← i.encode) ++ (← encodeInstrs rest)

-- The bytes of a subroutine: one byte for each part of the version, two for the application, then
-- the instructions.
def encode : Checked Bytes :=
  match s.appId, s.version with
  | none, _ => .error .unmet
  | some _, none => .error .mistyped
  | some appId, some v => do
    let body ← encodeInstrs s.instrs
    return ofInt 1 v.major ++ ofInt 1 v.minor ++ ofInt 2 appId ++ body

def decodeInstrs (flavour : Flavour) : Nat → Bytes → Checked (List Instr)
  | 0, _ => .ok []
  | n + 1, bs => do
    let i ← decode flavour (bs.take size)
    return i :: (← decodeInstrs flavour n (bs.drop size))

def decode (flavour : Flavour) (bs : Bytes) : Checked Subroutine := do
  if bs.length < headerSize then throw .malformed
  let body := bs.drop headerSize
  if body.length % size ≠ 0 then throw (.language .commandLength)
  let instrs ← decodeInstrs flavour (body.length / size) body
  return {
    version := some ⟨toNat (bs.take 1), toNat ((bs.drop 1).take 1)⟩
    appId := some (toNat ((bs.drop 2).take 2))
    arguments := []
    instrs := instrs }

end Subroutine

end QuantumNode
