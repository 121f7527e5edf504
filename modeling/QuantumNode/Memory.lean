import QuantumNode.Instr

/-
  Memories. Tables keep the order in which their keys were first put in. Blocks are rows of integers
  that may be undefined, read and written by place or by slice. An array that a node returns to its
  host is seen by both, so arrays are named blocks of one heap. A registry has all memories that
  nodes and hosts share.
-/

namespace QuantumNode

-- Keys with values, in the order of first insertion.
abbrev Table (κ α : Type) := List (κ × α)

namespace Table
variable {κ α : Type} [DecidableEq κ]

def get? (key : κ) : Table κ α → Option α
  | [] => none
  | (k, v) :: rest => if k = key then some v else get? key rest

-- Give a key a value; a known key keeps its place.
def put (key : κ) (value : α) : Table κ α → Table κ α
  | [] => [(key, value)]
  | (k, v) :: rest => if k = key then (k, value) :: rest else (k, v) :: put key value rest

def erase (key : κ) : Table κ α → Table κ α
  | [] => []
  | (k, v) :: rest => if k = key then rest else (k, v) :: erase key rest

def has (key : κ) (t : Table κ α) : Bool :=
  (get? key t).isSome

end Table

-- The position of an index; negative ones count from the end.
def place? (size : Nat) (i : Int) : Option Nat :=
  if 0 ≤ i then
    if i < size then some i.toNat else none
  else if 0 ≤ i + size then some (i + size).toNat
  else none

-- Bounds and step of a slice, each of which may be left out.
structure Slice where
  start : Option Int
  stop : Option Int
  step : Option Int
  deriving DecidableEq

namespace Slice

def between (start stop : Int) : Slice :=
  ⟨some start, some stop, none⟩

def full : Slice := ⟨none, none, none⟩

-- Clip a bound to a sequence. A descending slice may stop before the first place.
def clip (size : Nat) (descending : Bool) (bound : Int) : Int :=
  let b := if bound < 0 then bound + size else bound
  if b < 0 then (if descending then -1 else 0)
  else if (size : Int) ≤ b then (if descending then (size : Int) - 1 else size)
  else b

def first (s : Slice) (size : Nat) (descending : Bool) : Int :=
  match s.start with
  | some b => clip size descending b
  | none => if descending then (size : Int) - 1 else 0

def last (s : Slice) (size : Nat) (descending : Bool) : Int :=
  match s.stop with
  | some b => clip size descending b
  | none => if descending then -1 else size

def count (start stop step : Int) : Nat :=
  if 0 < step then
    (if start < stop then ((stop - start - 1) / step + 1).toNat else 0)
  else (if stop < start then ((start - stop - 1) / (-step) + 1).toNat else 0)

-- The positions that a slice selects, in order.
def positions (s : Slice) (size : Nat) : Checked (List Nat) :=
  let step := s.step.getD 1
  if step = 0 then .error .malformed
  else
    let start := s.first size (step < 0)
    let stop := s.last size (step < 0)
    .ok ((List.range (count start stop step)).map fun k => (start + Int.ofNat k * step).toNat)

end Slice

-- A row of integers, some of which may be undefined.
abbrev Block := List (Option Int)

namespace Block

def fresh (size : Int) : Block :=
  List.replicate size.toNat none

def fits (v : Int) : Bool :=
  -2147483648 ≤ v && v ≤ 2147483647

variable (hardware : Bool) (b : Block)

-- On hardware, an integer has to fit into 32 bits.
def checkWidth (v : Int) : Checked Unit :=
  demand (!hardware || fits v) (.node (.tooWide v))

def checkWidths (hardware : Bool) : Block → Checked Unit
  | [] => .ok ()
  | none :: rest => checkWidths hardware rest
  | some v :: rest => do
    checkWidth hardware v
    checkWidths hardware rest

def checkRow (values : Block) : Checked Unit := do
  checkWidths hardware values
  checkWidth hardware values.length

def checkBound : Option Int → Checked Unit
  | none => .ok ()
  | some v => checkWidth hardware v

def readAt (i : Int) : Option (Option Int) :=
  (place? b.length i).bind fun p => b[p]?

def readSlice (s : Slice) : Checked Block := do
  return (← s.positions b.length).filterMap fun p => b[p]?

def writeAt (i : Int) (v : Option Int) : Option Block :=
  (place? b.length i).map fun p => b.set p v

def writeMany : Block → List Nat → Block → Block
  | b, p :: places, v :: values => writeMany (b.set p v) places values
  | b, _, _ => b

def writeSlice (s : Slice) (values : Block) : Checked Block := do
  let places ← s.positions b.length
  demand (places.length = values.length) (.node .wrongLength)
  return writeMany b places values

def text : String :=
  "[" ++ ", ".intercalate (b.map fun
    | some v => toString v
    | none => "None") ++ "]"

end Block

-- All blocks of a node, by number.
structure Heap where
  blocks : Array Block
  deriving Inhabited

namespace Heap

def empty : Heap := ⟨#[]⟩

def get (h : Heap) (n : Nat) : Block :=
  h.blocks.getD n []

def set (h : Heap) (n : Nat) (b : Block) : Heap :=
  ⟨h.blocks.setIfInBounds n b⟩

def alloc (h : Heap) (b : Block) : Heap × Nat :=
  (⟨h.blocks.push b⟩, h.blocks.size)

end Heap

abbrev Arrays := Table Int Nat

namespace Arrays

def block (arrays : Arrays) (address : Int) : Checked Nat :=
  match Table.get? address arrays with
  | some n => .ok n
  | none => .error (.node (.noArray address))

variable (hardware : Bool) (heap : Heap)

def create (arrays : Arrays) (address size : Int) : Checked (Heap × Arrays) := do
  Block.checkWidth hardware address
  let (heap, n) := heap.alloc (Block.fresh size)
  return (heap, Table.put address n arrays)

-- The entry at an index; a missing array has no defined entries.
def readAt (arrays : Arrays) (address i : Int) : Checked (Option Int) := do
  Block.checkWidth hardware address
  match Table.get? address arrays with
  | none => return none
  | some n =>
    match (heap.get n).readAt i with
    | some v => return v
    | none => throw (.node (.entryIndex i address))

-- The entries of a slice, unless the array is missing.
def readSlice (arrays : Arrays) (address : Int) (s : Slice) : Checked (Option Block) := do
  Block.checkWidth hardware address
  match Table.get? address arrays with
  | none => return none
  | some n => return some (← (heap.get n).readSlice s)

def writeAt (arrays : Arrays) (address i : Int) (v : Option Int) : Checked Heap := do
  Block.checkWidth hardware address
  if let some value := v then
    Block.checkWidth hardware value
    Block.checkWidth hardware i
  let n ← block arrays address
  match (heap.get n).writeAt i v with
  | some b => return heap.set n b
  | none => throw (.node (.entryIndex i address))

def writeSlice (arrays : Arrays) (address : Int) (s : Slice) (values : Block) : Checked Heap := do
  Block.checkWidth hardware address
  Block.checkRow hardware values
  Block.checkBound hardware s.start
  Block.checkBound hardware s.stop
  let n ← block arrays address
  return heap.set n (← (heap.get n).writeSlice s values)

def defined (arrays : Arrays) : List (String × Int) :=
  arrays.flatMap fun (address, n) =>
    (heap.get n).zipIdx.filterMap fun (v, i) => v.map fun v => (s!"@{address}[{i}]", v)

def text (arrays : Arrays) : String :=
  "\x7b" ++ ", ".intercalate (arrays.map fun (address, n) =>
    toString address ++ ": " ++ (heap.get n).text) ++ "\x7d"

end Arrays

abbrev Registers := Table Reg (Option Int)

namespace Registers

def checkPlace (r : Reg) : Checked Unit :=
  demand (0 ≤ r.index && r.index < Reg.perBank) (.node (.registerIndex r.index))

def get (regs : Registers) (r : Reg) : Checked (Option Int) := do
  checkPlace r
  return (Table.get? r regs).join

-- On hardware, only a defined value that fits may be stored.
def checkValue (hardware : Bool) : Option Int → Checked Unit
  | some v => Block.checkWidth hardware v
  | none => demand (!hardware) .mistyped

def set (hardware : Bool) (regs : Registers) (r : Reg) (v : Option Int) : Checked Registers := do
  checkPlace r
  checkValue hardware v
  return Table.put r v regs

def defined (regs : Registers) : List (Reg × Int) :=
  Bank.all.flatMap fun b => regs.filterMap fun
    | (r, some v) => if r.bank = b then some (r, v) else none
    | _ => none

end Registers

structure SharedMemory where
  registers : Registers
  arrays : Arrays

namespace SharedMemory

def empty : SharedMemory := ⟨[], []⟩

def setRegister (hardware : Bool) (m : SharedMemory) (r : Reg)
    (v : Option Int) : Checked SharedMemory := do
  return { m with registers := ← m.registers.set hardware r v }

end SharedMemory

-- All shared memories, by number, and the numbers under which nodes have registered them.
structure MemoryBank where
  memories : Array SharedMemory
  registry : Table (String × Option Int) Nat
  deriving Inhabited

namespace MemoryBank

def empty : MemoryBank := ⟨#[], []⟩

variable (b : MemoryBank)

def get (n : Nat) : SharedMemory :=
  b.memories.getD n .empty

def set (n : Nat) (m : SharedMemory) : MemoryBank :=
  { b with memories := b.memories.setIfInBounds n m }

def alloc : MemoryBank × Nat :=
  ({ b with memories := b.memories.push .empty }, b.memories.size)

def keyText : Option Int → String
  | some k => toString k
  | none => "None"

-- Register a new memory; a key is given away once.
def create (node : String) (key : Option Int) : Checked (MemoryBank × Nat) :=
  if Table.has (node, key) b.registry then
    .error (.node (.memoryExists node (keyText key)))
  else
    let (b, n) := b.alloc
    .ok ({ b with registry := Table.put (node, key) n b.registry }, n)

def find? (node : String) (key : Option Int) : Option Nat :=
  Table.get? (node, key) b.registry

def reset : MemoryBank :=
  { b with registry := [] }

end MemoryBank

end QuantumNode
