import Mathlib.Data.List.Forall2
import Mathlib.Tactic.MkIffOfInductiveProp
import QuantumNode.Assembly.Assemble
import QuantumNode.Proofs.Node.Access

/-
  The direct meaning of drafts: numbers are values wherever a value is read, and a label is the
  place at which it stands. A draft runs over what is left of its items. Operations with paired
  operands are in step: if operands that go together have the same value on linked nodes, the whole
  operation has the same effect on them.
-/

open List

namespace QuantumNode

def Index.constants : Index → List Int
  | int v | shown v _ => [v]
  | reg _ => []

-- The numbers in an operand that stand where values are read.
def Operand.constants (op : Op) (place : Nat) : Operand → List Int
  | int v | shown v _ => if Constants.keeps op place then [] else [v]
  | entry _ i => i.constants
  | slice _ lo hi => lo.constants ++ hi.constants
  | _ => []

namespace Command
variable (c : Command)

def inputs : List Operand := c.args.map Operand.int ++ c.operands

def constantsFrom (op : Op) : Nat → List Operand → List Int
  | _, [] => []
  | place, o :: rest => o.constants op place ++ constantsFrom op (place + 1) rest

def constants : List Int := constantsFrom c.op 0 c.inputs

-- The instructions that a command takes: one for each constant and its own.
def size : Nat := c.constants.length + 1

end Command

namespace Draft
open Node

-- Operands of drafts are registers or values.
def ofOperand : Reader
  | app, .reg r => getReg app r
  | _, o =>
    match o.number? with
    | some v => return some v
    | none => throw .noAttribute

-- On hardware, all constants have to fit.
def checkAll : List Int → NodeM Unit
  | [] => return ()
  | v :: rest => do
    Block.checkWidth (← get).hardware v
    checkAll rest

-- The value that is returned without a register to return it in.
def returned? : Op → List Operand → Option Int
  | .retReg, [o] => o.number?
  | _, _ => none

-- A value in no register is shown to nobody; there has to be a host.
def showValue (app v : Int) : NodeM Unit := do
  let _ ← sharedOf app
  Block.checkWidth (← get).hardware v

def carryOut (sub : Nat) (op : Op) (operands : List Operand) : NodeM (Option Int) :=
  match returned? op operands with
  | some v => do
    showValue (← appOf sub) v
    return none
  | none => performWith ofOperand sub .core op operands

def next : List Item → Option (Command × List Item)
  | [] => none
  | .label _ _ :: rest => next rest
  | .command c :: rest => some (c, rest)

def behind (name : String) : List Item → Option (List Item)
  | [] => none
  | .label n _ :: rest => if n = name then some rest else behind name rest
  | .command _ :: rest => behind name rest

def size : List Item → Nat
  | [] => 0
  | .label _ _ :: rest => size rest
  | .command c :: rest => c.size + size rest

def before (name : String) : List Item → Option Nat
  | [] => none
  | .label n _ :: rest => if n = name then some 0 else before name rest
  | .command c :: rest => (before name rest).map (c.size + ·)

variable (items : List Item)

-- A label as a number is the number of instructions before it.
def valued : Operand → Operand
  | .label name =>
    match before name items with
    | some n => .int n
    | none => .label name
  | o => o

theorem eq_reg_of_valued {items : List Item} {o : Operand} {r : Reg}
    (hValued : valued items o = .reg r) : o = .reg r := by
  cases o with
  | label name =>
    simp only [valued] at hValued
    split at hValued <;> cases hValued
  | _ => exact hValued

def goTo : Operand → NodeM (List Item)
  | .label name =>
    match behind name items with
    | some rest => return rest
    | none => throw .noKey
  | _ => throw .noAttribute

-- What a command does, and what is then left to do.
def proceed (sub : Nat) (c : Command) (rest : List Item) : NodeM (List Item) := do
  match forks? c.op c.inputs with
  | some (compared, target) =>
    if ← takenWith ofOperand sub c.op (compared.map (valued items)) then goTo items target
    else return rest
  | none =>
    let _ ← carryOut sub c.op (c.inputs.map (valued items))
    return rest

-- Carry out a command whose constants fit.
def step (sub : Nat) (c : Command) (rest : List Item) : NodeM (List Item) := do
  checkAll c.constants
  proceed items sub c rest

-- A draft as a program over what is left of it.
def program (sub : Nat) : Machine (List Item) := fun rest =>
  (next rest).map fun (c, rest) => step items sub c rest

def commandAt : List Item → Nat → Option Command
  | [], _ => none
  | .label _ _ :: rest, n => commandAt rest n
  | .command c :: rest, n =>
    if n = 0 then some c else if n < c.size then none else commandAt rest (n - c.size)

-- The registers in an operand that give places in arrays.
def indexRegs : Operand → List Reg
  | .entry _ (.reg r) => [r]
  | .slice _ (.reg r) (.reg q) => [r, q]
  | .slice _ (.reg r) _ => [r]
  | .slice _ _ (.reg q) => [q]
  | _ => []

-- The place at which an operation names the register it writes to.
def target? : Op → Option Nat
  | .set | .load | .lea | .add | .sub | .addm | .subm => some 0
  | .meas | .measBasis => some 1
  | _ => none

def outputs (op : Op) (operands : List Operand) : List Reg :=
  match (target? op).bind (operands[·]?) with
  | some (.reg r) => [r]
  | _ => []

theorem writes_eq (family : Family) (op : Op) (os : List Operand) (line : Option HostLine) :
    Instr.writes (.op family op os line) = outputs op os := by
  rcases os with _ | ⟨_ | _, _ | ⟨_ | _, _⟩⟩ <;> cases op <;> rfl

theorem mem_of_mem_outputs (hOutput : r ∈ outputs op os) : Operand.reg r ∈ os := by
  unfold outputs at hOutput
  split at hOutput
  · rename_i q hTarget
    rw [List.mem_singleton.mp hOutput]
    rcases Option.bind_eq_some_iff.mp hTarget with ⟨j, _, hOperand⟩
    exact List.mem_of_getElem? hOperand
  · exact absurd hOutput List.not_mem_nil

-- Registers that a program names: all but the standard ones, and those of them that are themselves
-- operands.
def Named (r : Reg) : Prop := r.bank = .r → r ∈ registers items

instance (items : List Item) : DecidablePred (Named items) := fun r =>
  inferInstanceAs (Decidable (r.bank = .r → r ∈ registers items))

def label? : Operand → Option String
  | .label name => some name
  | _ => none

-- Commands with a direct meaning: no number stands where a register is written, branches lead to
-- labels, and standard registers that give places in arrays are also operands of some command.
@[mk_iff] structure Plain (items : List Item) (c : Command) : Prop where
  writes : ∀ j ∈ target? c.op, ∀ o ∈ c.inputs[j]?, o.number? = none
  leads : ∀ fork ∈ forks? c.op c.inputs, (label? fork.2).isSome
  indices : ∀ o ∈ c.inputs, ∀ r ∈ indexRegs o, Named items r

instance (items : List Item) (c : Command) : Decidable (Plain items c) :=
  decidable_of_iff' _ (plain_iff items c)

-- Drafts all of whose commands have a direct meaning.
def AllPlain : Prop := ∀ i ∈ items, ∀ c ∈ i.command?, Plain items c

instance (items : List Item) : Decidable (AllPlain items) :=
  inferInstanceAs (Decidable (∀ i ∈ items, ∀ c ∈ i.command?, Plain items c))

theorem AllPlain.command {items : List Item} (hPlain : AllPlain items) {c : Command}
    (hCommand : Item.command c ∈ items) : Plain items c :=
  hPlain _ hCommand c rfl

end Draft

end QuantumNode

namespace QuantumNode.Node
open Draft Linked
variable {os os' : List Operand} {op : Op} {n n' q q' : Operand} {a b : Slot}

---- Matching operands

-- Which operands stand for the same value, and which indices for the same place.
structure Pairing where
  reads : Operand → Operand → Prop
  places : Index → Index → Prop

-- Whether a slot takes a number as it is.
def isNumeric : Slot → Bool
  | .byte | .angle | .word => true
  | _ => false

-- Operands that match in a slot, which may be one that is written to.
inductive Match (P : Pairing) : Bool → Slot → Operand → Operand → Prop
  | written {r : Reg} : Match P true .reg (.reg r) (.reg r)
  | read {o o' : Operand} : P.reads o o' → Match P false .reg o o'
  | number {written : Bool} {slot : Slot} {o o' : Operand} :
      isNumeric slot → o'.number? = o.number? → (slot = .word → o.number?.isSome) →
      Match P written slot o o'
  | addr {written : Bool} {a : Int} : Match P written .addr (.addr a) (.addr a)
  | entry {written : Bool} {a : Int} {i j : Index} :
      P.places i j → Match P written .entry (.entry a i) (.entry a j)
  | slice {written : Bool} {a : Int} {lo lo' hi hi' : Index} : P.places lo lo' → P.places hi hi' →
      Match P written .slice (.slice a lo hi) (.slice a lo' hi')

inductive MatchFrom (P : Pairing) (target : Option Nat) :
    Nat → List Slot → List Operand → List Operand → Prop
  | nil {place : Nat} : MatchFrom P target place [] [] []
  | cons {place : Nat} {slot : Slot} {slots : List Slot} {o o' : Operand} {os os' : List Operand} :
      Match P (target == some place) slot o o' → MatchFrom P target (place + 1) slots os os' →
      MatchFrom P target place (slot :: slots) (o :: os) (o' :: os')

variable {P : Pairing}
namespace Match
variable {written : Bool} {slot : Slot} {o o' : Operand}

theorem toRead (hMatch : Match P false .reg o o') : P.reads o o' := by
  cases hMatch with
  | read hRead => exact hRead
  | number hNumeric => exact absurd hNumeric (by decide)

theorem toWritten (hMatch : Match P true .reg o o') : ∃ r, o = .reg r ∧ o' = .reg r := by
  cases hMatch with
  | written => exact ⟨_, rfl, rfl⟩
  | number hNumeric => exact absurd hNumeric (by decide)

theorem toNumber (hMatch : Match P written slot o o') (hNumeric : isNumeric slot) :
    o'.number? = o.number? := by
  cases hMatch with
  | number _ hNumber _ => exact hNumber
  | _ => exact absurd hNumeric (by decide)

theorem isSome (hMatch : Match P written .word o o') : o.number?.isSome := by
  cases hMatch with
  | number _ _ hSome => exact hSome rfl

theorem toAddr (hMatch : Match P written .addr o o') : ∃ a, o = .addr a ∧ o' = .addr a := by
  cases hMatch with
  | addr => exact ⟨_, rfl, rfl⟩
  | number hNumeric => exact absurd hNumeric (by decide)

theorem toEntry (hMatch : Match P written .entry o o') :
    ∃ a i j, o = .entry a i ∧ o' = .entry a j ∧ P.places i j := by
  cases hMatch with
  | entry hIndex => exact ⟨_, _, _, rfl, rfl, hIndex⟩
  | number hNumeric => exact absurd hNumeric (by decide)

theorem toSlice (hMatch : Match P written .slice o o') :
    ∃ a lo hi lo' hi', o = .slice a lo hi ∧ o' = .slice a lo' hi' ∧
      P.places lo lo' ∧ P.places hi hi' := by
  cases hMatch with
  | slice hLow hHigh => exact ⟨_, _, _, _, _, rfl, rfl, hLow, hHigh⟩
  | number hNumeric => exact absurd hNumeric (by decide)

end Match

-- Operands that match the slots of a branch make it branch.
theorem MatchFrom.straight (hMatch : MatchFrom P (target? op) 0 op.slots os os')
    (hStraight : forks? op os = none) : op ∉ [Op.jmp, .bez, .bnz, .beq, .bne, .blt, .bge] := by
  cases op with
  | jmp =>
    rcases hMatch with _ | ⟨_, ⟨⟩⟩
    cases hStraight
  | bez | bnz =>
    rcases hMatch with _ | ⟨_, _ | ⟨_, ⟨⟩⟩⟩
    cases hStraight
  | beq | bne | blt | bge =>
    rcases hMatch with _ | ⟨_, _ | ⟨_, _ | ⟨_, ⟨⟩⟩⟩⟩
    cases hStraight
  | _ => decide

namespace Pairing

-- What goes together is in step on linked nodes.
structure Sound (P : Pairing) (sub : Nat) (app : Int) (V : View) (read read' : Reader) : Prop where
  reads : ∀ {o o' : Operand}, P.reads o o' → Sim (Linked sub app V) Eq (read app o) (read' app o')
  places :
    ∀ {i j : Index}, P.places i j → Sim (Linked sub app V) Eq (evalIndex app i) (evalIndex app j)

namespace Sound
variable {sub : Nat} {app : Int} {V : View} {read read' : Reader}

theorem angleOf_eq (hNumber : n'.number? = n.number?) (hDenom : d'.number? = d.number?) :
    Gate.angleOf n' d' = Gate.angleOf n d := by
  simp [Gate.angleOf, hNumber, hDenom]

variable (hSound : P.Sound sub app V read read') (family : Family) (family' : Family)
include hSound
theorem sim_demandValue (hReads : P.reads o o') :
    Sim (Linked sub app V) Eq (demandValue read app o) (demandValue read' app o') := by
  refine SimTo.bind_eq (hSound.reads hReads) fun v => ?_
  cases v with
  | none => exact SimTo.throw rfl
  | some v => exact SimTo.pure rfl

theorem sim_arithmetic {out : Reg} {a a' b b' : Operand} (hFree : ∀ p ∈ V.held, p.1 ≠ out)
    (hFirst : P.reads a a') (hSecond : P.reads b b') (op : Op) (modulus : Option Int) :
    SimTo (Linked sub app V) (Linked sub app (V.writing [out])) Eq
      (arithmetic read app op out a b modulus)
      (arithmetic read' app op out a' b' modulus) := by
  refine SimTo.bind_eq (SimTo.lift _) fun _ =>
    SimTo.bind_eq (hSound.reads hFirst) fun x => SimTo.bind_eq (hSound.reads hSecond) fun y => ?_
  cases x with
  | none => exact SimTo.throw rfl
  | some x =>
    cases y with
    | none => exact SimTo.throw rfl
    | some y => exact SimTo.bind_eq (SimTo.lift _) fun v => sim_setReg hFree v

theorem sim_measure (hFree : ∀ p ∈ V.held, p.1 ≠ out) (hQubit : P.reads q q') :
    SimTo (Linked sub app V) (Linked sub app (V.writing [out])) Eq
      (measure read app q out) (measure read' app q' out) :=
  SimTo.bind_eq (hSound.sim_demandValue hQubit) fun _ =>
    SimTo.bind_eq (sim_blind Blind.trait.nextOutcome) fun outcome =>
      SimTo.bind_eq (sim_blind (Blind.emit _)) fun _ =>
        (sim_setReg hFree outcome).answer fun _ _ _ => rfl

theorem sim_createFrom {k k' a a' e e' : Operand} (hRemote : P.reads n n') (hSocket : P.reads k k')
    (hQubits : P.reads q q') (hArgs : P.reads a a') (hResults : P.reads e e') :
    Sim (Linked sub app V) Eq (createFrom read sub app n k q a e)
      (createFrom read' sub app n' k' q' a' e') := by
  refine SimTo.bind_eq (hSound.reads hRemote) fun _ =>
    SimTo.bind_eq (hSound.reads hSocket) fun _ =>
      SimTo.bind_eq (hSound.reads hQubits) fun _ =>
        SimTo.bind_eq (hSound.reads hArgs) fun _ =>
          SimTo.bind_eq (hSound.reads hResults) fun _ => ?_
  split
  · exact sim_blind (Blind.trait.createPairs Blind.trait.ends Blind.emit _ _ _ _ _ _ _)
  · exact SimTo.throw rfl

theorem sim_recvFrom (hRemote : P.reads n n') (hSocket : P.reads k k') (hQubits : P.reads q q')
    (hResults : P.reads e e') :
    Sim (Linked sub app V) Eq (recvFrom read sub app n k q e)
      (recvFrom read' sub app n' k' q' e') := by
  refine SimTo.bind_eq (hSound.reads hRemote) fun _ =>
    SimTo.bind_eq (hSound.reads hSocket) fun _ =>
      SimTo.bind_eq (hSound.reads hQubits) fun _ =>
        SimTo.bind_eq (hSound.reads hResults) fun _ => ?_
  split
  · exact sim_blind (Blind.trait.recvPairs Blind.trait.ends _ _ _ _ _ _)
  · exact SimTo.throw rfl

---- Whole operations

-- Operations that write to no register. The operands follow the slots of the operation, so the
-- cases are its constructors.
theorem sim_quiet (hMatch : MatchFrom P (target? op) 0 op.slots os os')
    (hStraight : forks? op os = none) (hQuiet : target? op = none) (hReturn : op ≠ .retReg) :
    Sim (Linked sub app V) Eq
      (performWith read sub family op os) (performWith read' sub family' op os') := by
  cases op with
  | set | lea | load | add | sub | addm | subm | meas | measBasis => cases hQuiet
  | retReg => exact absurd rfl hReturn
  | jmp | bez | bnz | beq | bne | blt | bge => exact absurd (hMatch.straight hStraight) (by decide)
  | breakpoint => exact SimTo.throw rfl
  | qalloc =>
    rcases hMatch with _ | ⟨hQubit, ⟨⟩⟩
    refine sim_forApp (SimTo.bind_eq (hSound.reads hQubit.toRead) fun v => ?_)
    cases v with
    | none => exact SimTo.throw rfl
    | some address =>
      exact SimTo.bind_eq (sim_blind (Blind.trait.allocate _ _ _)) fun _ => SimTo.pure rfl
  | qfree =>
    rcases hMatch with _ | ⟨hQubit, ⟨⟩⟩
    exact sim_forApp (SimTo.bind_eq (hSound.sim_demandValue hQubit.toRead) fun _ =>
      (sim_blind (Blind.trait.free _ _)).done)
  | store =>
    rcases hMatch with _ | ⟨hValue, _ | ⟨hEntry, ⟨⟩⟩⟩
    rcases hEntry.toEntry with ⟨a, i, j, rfl, rfl, hIndex⟩
    refine sim_forApp (SimTo.bind_eq (hSound.reads hValue.toRead) fun v => ?_)
    cases v with
    | none => exact SimTo.throw rfl
    | some v => exact (sim_writeEntry (hSound.places hIndex) a (some v)).done
  | undef =>
    rcases hMatch with _ | ⟨hEntry, ⟨⟩⟩
    rcases hEntry.toEntry with ⟨a, i, j, rfl, rfl, hIndex⟩
    exact sim_forApp (sim_writeEntry (hSound.places hIndex) a none).done
  | array =>
    rcases hMatch with _ | ⟨hSize, _ | ⟨hAddress, ⟨⟩⟩⟩
    rcases hAddress.toAddr with ⟨a, rfl, rfl⟩
    exact sim_forApp (SimTo.bind_eq (hSound.sim_demandValue hSize.toRead) fun _ =>
      (sim_blind (Blind.trait.createArray _ _ _)).done)
  | createEpr =>
    rcases hMatch with
      _ | ⟨hRemote, _ | ⟨hSocket, _ | ⟨hQubits, _ | ⟨hArgs, _ | ⟨hResults, ⟨⟩⟩⟩⟩⟩⟩
    exact sim_forApp (hSound.sim_createFrom hRemote.toRead hSocket.toRead hQubits.toRead
      hArgs.toRead hResults.toRead).done
  | recvEpr =>
    rcases hMatch with _ | ⟨hRemote, _ | ⟨hSocket, _ | ⟨hQubits, _ | ⟨hResults, ⟨⟩⟩⟩⟩⟩
    exact sim_forApp (hSound.sim_recvFrom hRemote.toRead hSocket.toRead hQubits.toRead
      hResults.toRead).done
  | waitAll =>
    rcases hMatch with _ | ⟨hSlice, ⟨⟩⟩
    rcases hSlice.toSlice with ⟨a, lo, hi, lo', hi', rfl, rfl, hLow, hHigh⟩
    exact sim_forApp (SimTo.bind_eq
      (sim_evalSlice (hSound.places hLow) (hSound.places hHigh)) fun slice =>
      (sim_waitUntil (sim_blind (Blind.trait.allDefined _ a slice))).done)
  | waitAny =>
    rcases hMatch with _ | ⟨hSlice, ⟨⟩⟩
    rcases hSlice.toSlice with ⟨a, lo, hi, lo', hi', rfl, rfl, hLow, hHigh⟩
    exact sim_forApp
      (sim_waitUntil (sim_anyDefined (hSound.places hLow) (hSound.places hHigh) a)).done
  | waitSingle =>
    rcases hMatch with _ | ⟨hEntry, ⟨⟩⟩
    rcases hEntry.toEntry with ⟨a, i, j, rfl, rfl, hIndex⟩
    exact sim_forApp (sim_waitUntil
      (SimTo.bind_eq (sim_readEntry (hSound.places hIndex) a) fun _ => SimTo.pure rfl)).done
  | retArr =>
    rcases hMatch with _ | ⟨hAddress, ⟨⟩⟩
    rcases hAddress.toAddr with ⟨a, rfl, rfl⟩
    exact sim_forApp (sim_returnArray a).done
  | init | x | y | z | h | s | k | t =>
    rcases hMatch with _ | ⟨hQubit, ⟨⟩⟩
    exact sim_forApp (SimTo.bind_eq (hSound.sim_demandValue hQubit.toRead) fun _ =>
      (sim_blind (Blind.emit _)).done)
  | cnot | cphase | mov =>
    rcases hMatch with _ | ⟨hFirst, _ | ⟨hSecond, ⟨⟩⟩⟩
    refine sim_forApp (SimTo.bind_eq (hSound.reads hFirst.toRead) fun first =>
      SimTo.bind_eq (hSound.reads hSecond.toRead) fun second => ?_)
    split
    · exact (sim_blind (Blind.emit _)).done
    · exact SimTo.throw rfl
  | rotX | rotY | rotZ =>
    rcases hMatch with _ | ⟨hQubit, _ | ⟨hNumber, _ | ⟨hDenom, ⟨⟩⟩⟩⟩
    refine sim_forApp (SimTo.bind_eq (hSound.sim_demandValue hQubit.toRead) fun _ => ?_)
    rw [angleOf_eq (hNumber.toNumber rfl) (hDenom.toNumber rfl)]
    exact SimTo.bind_eq (SimTo.lift _) fun _ => (sim_blind (Blind.emit _)).done
  | crotX | crotY | crotZ =>
    rcases hMatch with _ | ⟨hFirst, _ | ⟨hSecond, _ | ⟨hNumber, _ | ⟨hDenom, ⟨⟩⟩⟩⟩⟩
    refine sim_forApp (SimTo.bind_eq (hSound.reads hFirst.toRead) fun first =>
      SimTo.bind_eq (hSound.reads hSecond.toRead) fun second => ?_)
    rw [angleOf_eq (hNumber.toNumber rfl) (hDenom.toNumber rfl)]
    split
    · exact SimTo.bind_eq (SimTo.lift _) fun _ => (sim_blind (Blind.emit _)).done
    · exact SimTo.throw rfl

-- Operations that write to a register, which then agrees.
theorem sim_writing (hMatch : MatchFrom P (target? op) 0 op.slots os os')
    (hWrites : (target? op).isSome) (hFree : ∀ r ∈ outputs op os, ∀ p ∈ V.held, p.1 ≠ r) :
    SimTo (Linked sub app V) (Linked sub app (V.writing (outputs op os))) Eq
      (performWith read sub family op os) (performWith read' sub family' op os') := by
  cases op with
  | measBasis => exact SimTo.throw rfl
  | set =>
    rcases hMatch with _ | ⟨hOut, _ | ⟨hNumber, ⟨⟩⟩⟩
    rcases hOut.toWritten with ⟨r, rfl, rfl⟩
    refine sim_forApp (SimTo.bind_eq ?_ fun v => ?_)
    · rw [numberOf, numberOf, hNumber.toNumber rfl]
      exact SimTo.lift _
    exact (sim_setReg (hFree r mem_cons_self) v).done
  | lea =>
    rcases hMatch with _ | ⟨hOut, _ | ⟨hAddress, ⟨⟩⟩⟩
    rcases hOut.toWritten with ⟨r, rfl, rfl⟩
    rcases hAddress.toAddr with ⟨a, rfl, rfl⟩
    exact sim_forApp (sim_setReg (hFree r mem_cons_self) a).done
  | load =>
    rcases hMatch with _ | ⟨hOut, _ | ⟨hEntry, ⟨⟩⟩⟩
    rcases hOut.toWritten with ⟨r, rfl, rfl⟩
    rcases hEntry.toEntry with ⟨a, i, j, rfl, rfl, hIndex⟩
    refine sim_forApp (SimTo.bind_eq (sim_readEntry (hSound.places hIndex) a) fun v => ?_)
    cases v with
    | none => exact SimTo.throw rfl
    | some v => exact (sim_setReg (hFree r mem_cons_self) v).done
  | add | sub =>
    rcases hMatch with _ | ⟨hOut, _ | ⟨hFirst, _ | ⟨hSecond, ⟨⟩⟩⟩⟩
    rcases hOut.toWritten with ⟨r, rfl, rfl⟩
    exact sim_forApp (hSound.sim_arithmetic (hFree r mem_cons_self) hFirst.toRead
      hSecond.toRead _ _).done
  | addm | subm =>
    rcases hMatch with _ | ⟨hOut, _ | ⟨hFirst, _ | ⟨hSecond, _ | ⟨hModulus, ⟨⟩⟩⟩⟩⟩
    rcases hOut.toWritten with ⟨r, rfl, rfl⟩
    exact sim_forApp (SimTo.bind_eq (hSound.reads hModulus.toRead) fun modulus =>
      (hSound.sim_arithmetic (hFree r mem_cons_self) hFirst.toRead
        hSecond.toRead _ modulus).answer fun _ _ _ => rfl)
  | meas =>
    rcases hMatch with _ | ⟨hQubit, _ | ⟨hOut, ⟨⟩⟩⟩
    rcases hOut.toWritten with ⟨r, rfl, rfl⟩
    exact sim_forApp ((hSound.sim_measure (hFree r mem_cons_self)
      hQubit.toRead).answer fun _ _ hSame => congrArg some hSame)
  | _ => cases hWrites

theorem sim_performWith
    (hMatch : MatchFrom P (target? op) 0 op.slots os os') (hStraight : forks? op os = none)
    (hReturn : op ≠ .retReg) (hFree : ∀ r ∈ outputs op os, ∀ p ∈ V.held, p.1 ≠ r) :
    SimTo (Linked sub app V) (Linked sub app (V.writing (outputs op os))) Eq
      (performWith read sub family op os) (performWith read' sub family' op os') := by
  cases hTarget : target? op with
  | some j => exact hSound.sim_writing family family' hMatch (by rw [hTarget]; rfl) hFree
  | none =>
    have hNothing : outputs op os = [] := by simp [outputs, hTarget]
    refine (hSound.sim_quiet family family' hMatch hStraight hTarget hReturn).relax ?_
    intro s t hLinked
    refine hLinked.mono ⟨fun r hr => ?_, fun _ hr => hr, fun _ hp => hp⟩
    rw [hNothing] at hr
    exact hr.resolve_right not_mem_nil

theorem sim_readAll (hMatch : Forall₂ P.reads os os') :
    Sim (Linked sub app V) Eq (readAll read app os) (readAll read' app os') := by
  induction hMatch with
  | nil => exact SimTo.pure rfl
  | cons hFirst _ ih =>
    exact SimTo.bind_eq (hSound.reads hFirst) fun _ => SimTo.bind_eq ih fun _ => SimTo.pure rfl

theorem sim_takenWith (hMatch : Forall₂ P.reads os os') (op : Op) :
    Sim (Linked sub app V) Eq (takenWith read sub op os) (takenWith read' sub op os') := by
  refine sim_forApp (SimTo.bind_eq (hSound.sim_readAll hMatch) fun _ => ?_)
  split
  · exact SimTo.pure rfl
  · exact SimTo.lift _

end Sound

end Pairing

theorem forks?_map (f : Operand → Operand) (op : Op) (os : List Operand) :
    forks? op (os.map f) =
      (forks? op os).map fun (compared, target) => (compared.map f, f target) := by
  rcases os with _ | ⟨a, _ | ⟨b, _ | ⟨c, _ | ⟨d, _⟩⟩⟩⟩ <;> cases op <;> rfl

theorem MatchFrom.forks (hMatch : MatchFrom P (target? op) 0 op.slots os os')
    (hForks : forks? op os = some (compared, target)) :
    ∃ compared' target', forks? op os' = some (compared', target') ∧
      Forall₂ P.reads compared compared' ∧
      target'.number? = target.number? ∧ target.number?.isSome := by
  cases op with
  | jmp =>
    rcases hMatch with _ | ⟨hTarget, ⟨⟩⟩
    cases hForks
    exact ⟨_, _, rfl, .nil, hTarget.toNumber rfl, hTarget.isSome⟩
  | bez | bnz =>
    rcases hMatch with _ | ⟨hFirst, _ | ⟨hTarget, ⟨⟩⟩⟩
    cases hForks
    exact ⟨_, _, rfl, .cons hFirst.toRead .nil, hTarget.toNumber rfl, hTarget.isSome⟩
  | beq | bne | blt | bge =>
    rcases hMatch with _ | ⟨hFirst, _ | ⟨hSecond, _ | ⟨hTarget, ⟨⟩⟩⟩⟩
    cases hForks
    exact ⟨_, _, rfl, .cons hFirst.toRead (.cons hSecond.toRead .nil),
      hTarget.toNumber rfl, hTarget.isSome⟩
  | _ => exact absurd hForks (by simp [forks?])

-- What does not branch in a draft does not branch as an instruction.
theorem MatchFrom.forks_none (hMatch : MatchFrom P (target? op) 0 op.slots os os')
    (hStraight : forks? op os = none) : forks? op os' = none := by
  have hNot := hMatch.straight hStraight
  cases op <;> first | exact absurd hNot (by decide) | simp [forks?]

end QuantumNode.Node
