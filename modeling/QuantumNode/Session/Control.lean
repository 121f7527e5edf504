import QuantumNode.Mapping.Nv
import QuantumNode.Session.Qubits

/-
  The control flow of programs: loops and conditional blocks. A block is opened, its body adds
  items, and it is closed; what was pending before it is kept apart meanwhile. When pending items
  become a subroutine, arrays are made first, then the items follow, then arrays and registers are
  returned.
-/

namespace QuantumNode

structure LoopLabels where
  entry : String
  exit : String

-- How the register of a loop starts, where it stops and how it steps.
structure LoopRange where
  start : Operand
  stop : Operand
  step : Operand

def LoopRange.upTo (stop : Operand) : LoopRange :=
  ⟨.int 0, stop, .int 1⟩

variable (labels : LoopLabels)

def loopStart (r : Reg) (range : LoopRange) : List Item :=
  [command .set [.reg r, range.start], .label labels.entry none,
   command .beq [.reg r, range.stop, .label labels.exit]]

def loopEnd (r : Reg) (range : LoopRange) : List Item :=
  [command .add [.reg r, .reg r, range.step], command .jmp [.label labels.entry],
   .label labels.exit none]

def loopItems (r : Reg) (range : LoopRange) (body : List Item) : List Item :=
  loopStart labels r range ++ body ++ loopEnd labels r range

namespace Session

-- Add what was pending before, and a loop if there is a body.
def addLoop (before body : List Item) (range : LoopRange) (r : Reg) : SessionM Unit := do
  if body.isEmpty then add before
  else
    let entry ← freshLabel "LOOP"
    let exit ← freshLabel "LOOP_EXIT"
    add (before ++ loopItems ⟨entry, exit⟩ r range body)

-- The register that an application wants a loop to count in.
def loopRegister? : Value → SessionM (Option Reg)
  | .none => return none
  | .reg r => return some r
  | .text s => return some (← Reg.parse s.toList)
  | v => throw (.session (.badLoopRegister v.typeText))

structure OpenLoop where
  before : List Item
  register : Reg
  owned : Bool

-- Open a loop around a body that is called once.
def openLoop (wanted : Option Reg) : SessionM OpenLoop := do
  let r ← match wanted with
    | some r => pure r
    | none => freeRegister
  let before ← takeAll
  let owned := !(← get).allocation.isUsed r
  if owned then allocate (·.occupy r)
  return ⟨before, r, owned⟩

-- Close a loop; a register that was in use before stays so.
def closeLoop (loop : OpenLoop) (range : LoopRange) : SessionM Unit := do
  let body ← takeAll
  addLoop loop.before body range loop.register
  if loop.owned then release loop.register

variable {m : Type → Type} [Monad m] [MonadLiftT SessionM m]

def loopBody (range : LoopRange) (wanted : Option Reg) (body : Nat → m Unit) : m Unit := do
  let loop ← openLoop wanted
  let index ← registerFuture loop.register
  body index
  closeLoop loop range

-- A loop as a block. The block is closed even if its body is refused. A register that the
-- application chose is not taken into use, and then cannot be taken out of use.
def loopBlock [MonadFinally m] (range : LoopRange) (wanted : Value)
    (body : Reg → m Unit) : m Unit := do
  let before ← takeAll
  let choose : SessionM Reg := do
    match ← loopRegister? wanted with
    | some r => return r
    | none => takeRegister
  let opening : SessionM Reg := try choose catch _ => throw (.unexplained .unassigned)
  let r ← opening
  let closing : SessionM Unit := do
    let items ← takeAll
    addLoop before items range r
    release r
  try body r finally closing

-- A value in a comparison: commands that load it and the operand to compare. A future of an array
-- is loaded into a register that is then in use.
def comparand : Value → SessionM (List Item × Operand)
  | .future f => do
    match (← futureCell f).place with
    | .entry _ _ =>
      let r ← takeRegister
      let entry ← addressEntry f
      return ([command .load [.reg r, entry]], .reg r)
    | .register none => throw .unmet
    | .register (some r) => return ([], .reg r)
  | v => do
    if v.int?.isNone then throw (.session (.badComparand v.typeText))
    return ([], ← operandOf v)

def loadedRegister? : Value → Operand → SessionM (Option Reg)
  | .future f, .reg r => do
    match (← futureCell f).place with
    | .entry _ _ => return some r
    | .register _ => return none
  | _, _ => return none

-- A branch that skips a body. The register of a single value stays in use; those of two values do
-- not.
def branchItems (op : Op) (a b : Value) : SessionM (List Item × List Item) := do
  if op = .bez || op = .bnz then
    let exit ← freshLabel "IF_EXIT"
    let (load, operand) ← comparand a
    return (load ++ [command op [operand, .label exit]], [.label exit none])
  else
    if let .none := b then throw .unmet
    let exit ← freshLabel "IF_EXIT"
    let (loadA, operandA) ← comparand a
    let (loadB, operandB) ← comparand b
    let loaded := [← loadedRegister? a operandA, ← loadedRegister? b operandB].filterMap id
    releaseAll loaded
    return (loadA ++ loadB ++ [command op [operandA, operandB, .label exit]], [.label exit none])

-- Add what was pending before, and a conditional body if there is one.
def addCondition (before body : List Item) (op : Op) (a b : Value) : SessionM Unit := do
  if body.isEmpty then add before
  else
    let (start, finish) ← branchItems (← op.flip) a b
    add (before ++ start ++ body ++ finish)

-- A condition around a body that is called once.
def ifBody (op : Op) (a b : Value) (body : m Unit) : m Unit := do
  let before ← takeAll
  body
  let closing : SessionM Unit := do
    addCondition before (← takeAll) op a b
  closing

def newContext : SessionM Nat := do
  let s ← get
  set { s with nextContext := s.nextContext + 1 }
  return s.nextContext

def openContext (id : Nat) (register : Option Reg) (before : List Item) : SessionM Unit :=
  modify fun s => { s with contexts := Table.put id ⟨before, register⟩ s.contexts }

-- What was pending before a context, which may be lost by then.
def closeContext (id : Nat) (lost : SessionFault) : SessionM Context := do
  let s ← get
  match Table.get? id s.contexts with
  | none => throw (.session lost)
  | some c =>
    set { s with contexts := Table.erase id s.contexts }
    return c

def ifBlock [MonadFinally m] (op : Op) (a b : Value) (body : m Unit) : m Unit := do
  let id ← newContext
  let opening : SessionM Unit := do
    openContext id none (← takeAll)
  opening
  let closing : SessionM Unit := do
    let items ← takeAll
    let c ← closeContext id .lostContext
    addCondition c.before items op a b
  try body finally closing

def foreachBlock [MonadFinally m] (array : HostArray) (body : Reg → Nat → m Unit) : m Unit := do
  let id ← newContext
  let opening : SessionM (Reg × Nat) := do
    let before ← takeAll
    let r ← takeRegister
    openContext id (some r) before
    let entry ← entryFuture array (.reg r)
    return (r, entry)
  let (r, entry) ← opening
  let closing : SessionM Unit := do
    let items ← takeAll
    let c ← closeContext id .lostContext
    addLoop c.before items (.upTo (.int array.length)) r
    release r
  try body r entry finally closing

-- What ends a loop early: a value that is at most a bound. Other constraints are not supported.
inductive Constraint
  | atMost (value bound : Value)
  | other

def breakItems (exit : String) : Constraint → SessionM (List Item)
  | .other => throw (.session .badConstraint)
  | .atMost value bound => do
    let (load, operand) ← comparand value
    return load ++ [command .blt [operand, ← operandOf bound, .label exit]]

def openUntil (id : Nat) : SessionM (Reg × Nat) := do
  let before ← takeAll
  let r ← takeRegister
  openContext id (some r) before
  let index ← registerFuture r
  return (r, index)

def addUntil (before body : List Item) (r : Reg) (rounds : Operand) (constraint : Constraint)
    (cleanup : m Unit) : m Unit := do
  if body.isEmpty then
    add before
  else
    let opening : SessionM (LoopLabels × List Item) := do
      let entry ← freshLabel "WHILE"
      let exit ← freshLabel "WHILE_EXIT"
      return (⟨entry, exit⟩, ← breakItems exit constraint)
    let (labels, leaving) ← opening
    cleanup
    let closing : SessionM Unit := do
      let cleaning ← takeAll
      add (before ++ loopItems labels r (.upTo rounds) (body ++ leaving ++ cleaning))
    closing

-- Close a loop that a constraint ends early. The register it counts in stays in use.
def closeUntil (id : Nat) (r : Reg) (rounds : Operand) (constraint : Constraint)
    (cleanup : m Unit) : m Unit := do
  let items ← takeAll
  let c ← closeContext id .lostLoop
  addUntil c.before items r rounds constraint cleanup

-- A loop that stops at the latest after a number of rounds, as a block. The body answers with the
-- constraint and with what cleans up after a round.
def untilBlock {α : Type} [MonadFinally m] (rounds : Operand)
    (body : Nat → m (α × Option Constraint × m Unit)) : m α := do
  let id ← newContext
  let opening : SessionM (Reg × Nat) := try openUntil id catch _ => throw .unmet
  let (r, index) ← opening
  let ((result, _), _) ← tryFinally' (body index) fun
    | some (_, some constraint, cleanup) => closeUntil id r rounds constraint cleanup
    | _ => liftM (throw .unmet : SessionM Unit)
  return result

-- A block without any effect of its own.
def plainBlock [MonadFinally m] (body : m Unit) : m Unit := do
  let before ← takeAll
  let closing : SessionM Unit := do
    let items ← takeAll
    add (before ++ items)
  try body finally closing

end Session

end QuantumNode

namespace QuantumNode.Session

-- The value that all entries of an array start with, if there are several.
def uniform? : List (Option Operand) → Option Operand
  | some x :: y :: rest =>
    if (y :: rest).all fun z => z.bind Operand.number? == x.number? then some x else none
  | _ => none

variable (a : HostArray)

def arrayCommand (op : Op) (operands : List Operand) : Item :=
  .command (.plain op operands a.line)

def storeEach (a : HostArray) : Nat → List (Option Operand) → List Item
  | _, [] => []
  | i, none :: rest => storeEach a (i + 1) rest
  | i, some x :: rest =>
    arrayCommand a .store [x, .entry a.address (.int i)] :: storeEach a (i + 1) rest

-- Items that make an array. If all entries start with the same value, a loop stores it; the loop
-- then stands behind what was pending.
def initItems : SessionM (List Item) := do
  let make := arrayCommand a .array [.int a.length, .addr a.address]
  match a.init with
  | none => return [make]
  | some values =>
    match uniform? values with
    | none => return make :: storeEach a 0 values
    | some x =>
      let r ← freeRegister
      loopBody (m := SessionM) (.upTo (.int values.length)) (some r) fun _ =>
        addOne (arrayCommand a .store [x, .entry a.address (.reg r)])
      return make :: (← takeAll)

def allocatedArrays : SessionM Unit := do
  let items ← takeAll
  let arrays := (← get).allocation.returnedArrays
  for a in arrays do
    add (← initItems a)
  add items
  if (← get).returnsArrays then
    for a in arrays do
      addOne (arrayCommand a .retArr [.addr a.address])

def undefine : SessionM Unit := do
  let r ← freeRegister
  loopBody (m := SessionM) (.upTo (.int a.length)) (some r) fun _ =>
    emit .undef [.entry a.address (.reg r)]

def returnRegisters : SessionM Unit := do
  let registers := (← get).allocation.returnedRegisters
  add (registers.map fun r => command .retReg [.reg r])

-- The draft of everything that is pending, if anything is.
def popDraft : SessionM (Option Draft) := do
  allocatedArrays
  returnRegisters
  let s ← get
  if s.pending.isEmpty then return none
  let items ← takeAll
  return some (.ofItems (some .current) (some s.appId) items)

-- Assemble a draft and map it to the hardware; tracked programs are remembered.
def compileDraft (d : Draft) : SessionM Nat := do
  let s ← get
  let assembled ← Assembly.assemble .full .vanilla d
  let program ← if s.mapped then
      pure (← Mapping.toNv ⟨false, false⟩ assembled).1
    else pure assembled
  let id ← newProgram program
  if s.tracker.isSome then
    modify fun s => { s with committed := s.committed ++ [id] }
  return id

end QuantumNode.Session
