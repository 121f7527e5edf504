import QuantumNode.Session.State

/-
  Futures: values that a node returns when a subroutine has run. Until then commands can load and
  store them. Once its value is known a future takes part in arithmetic with plain numbers.
-/

namespace QuantumNode.Session

def sharedMemory (node : Node) : SessionM SharedMemory := do
  let s ← get
  match s.memory.or (node.bank.find? s.node (some s.appId)) with
  | some n =>
    set { s with memory := some n }
    return node.bank.get n
  | none => throw (.session .noSharedMemory)

-- The entry of a returned array.  Without a node nothing is returned.
def readEntry (address index : Int) : SessionM (Option Int) := do
  match (← get).backend with
  | none => return none
  | some node =>
    let m ← sharedMemory node
    Arrays.readAt node.hardware node.heap m.arrays address index

def readSlice (address : Int) (part : Slice) : SessionM (Option Block) := do
  match (← get).backend with
  | none => return none
  | some node =>
    let m ← sharedMemory node
    Arrays.readSlice node.hardware node.heap m.arrays address part

variable (r : Reg) (id : Nat)

def readRegister : SessionM (Option Int) := do
  match (← get).backend with
  | none => Registers.get [] r
  | some node =>
    let m ← sharedMemory node
    m.registers.get r

---- Values

-- The place of a future in its array. A future that stands as an index counts as zero here.
def constantIndex? : Value → Option Int
  | .future _ => some 0
  | v => v.int?

def lookup : Place → SessionM (Option Int)
  | .entry address index =>
    match constantIndex? index with
    | some i => readEntry address i
    | none => throw (.session .variableIndex)
  | .register none => throw .unmet
  | .register (some r) => readRegister r

-- The value of a future, which stays once it is known.
def valueOf : SessionM (Option Int) := do
  let cell ← futureCell id
  match cell.known with
  | some v => return some v
  | none =>
    let v ← lookup cell.place
    setFuture id { cell with known := v }
    return v

def futureKind : Place → String
  | .entry _ _ => "Future"
  | .register _ => "RegFuture"

def futureLabel : SessionM String := do
  let kind := futureKind (← futureCell id).place
  let value := match ← valueOf id with
    | some v => toString v
    | none => "None"
  return s!"<class 'netqasm.sdk.futures.{kind}'> with value={value}"

def knownValue : SessionM Int := do
  match ← valueOf id with
  | some v => return v
  | none => throw (.session (.noValue (← futureLabel id)))

-- A future as text: its value or where it will be. An index may be a future in turn.
def futureTextWithin : Nat → Nat → SessionM String
  | 0, _ => return ""
  | depth + 1, id => do
    let cell ← futureCell id
    if let .register none := cell.place then throw .unmet
    match ← valueOf id with
    | some v => return toString v
    | none =>
      let hint :=
        "To access the value, the subroutine must first be executed which can be done by flushing."
      match cell.place with
      | .entry address index =>
        let place ← match index with
          | .future inner => futureTextWithin depth inner
          | v => pure v.plainText
        return s!"Future to be stored in array with address {address} at index {place}.\n" ++ hint
      | .register r =>
        let name := (r.map Reg.text).getD ""
        return s!"RegFuture to be stored in reg {name} " ++ hint

def futureText : SessionM String := do
  futureTextWithin ((← get).futures.size + 1) id

-- A value as an operand. A future that stands for a number is shown as itself and counts as zero;
-- what is no operand at all is a name that nothing resolves.
def operandOf : Value → SessionM Operand
  | .int v => return .int v
  | .bool b => return .shown (if b then 1 else 0) (Value.flagText b)
  | .reg r => return .reg r
  | .template name => return .template name
  | .future id => do
    let words ← try futureText id catch _ => pure ""
    return .shown 0 words
  | v => return .label v.plainText

-- Commands that load or store a future. An index that is a future is first loaded into a register
-- of its own.
def accessWithin : Nat → Op → Reg → Nat → SessionM (List Item)
  | 0, _, _, _ => return []
  | depth + 1, op, r, id => do
    match (← futureCell id).place with
    | .register _ => throw .noAttribute
    | .entry address index =>
      let (before, place) ← match index with
        | .future inner => do
          match (← futureCell inner).place with
          | .register none => throw (.session .registerUnknown)
          | .register (some r) => pure ([], Index.reg r)
          | .entry _ _ =>
            let scratch ← freeRegister
            allocate (·.occupy scratch)
            let load ← try accessWithin depth .load scratch inner finally release scratch
            pure (load, Index.reg scratch)
        | .reg r => pure ([], Index.reg r)
        | v =>
          match v.int? with
          | some i => pure ([], Index.int i)
          | none => throw (.session (.badIndexType v.typeText))
      return before ++ [command op [.reg r, .entry address place]]

def accessFrom (op : Op) (r : Reg) (id : Nat) : SessionM (List Item) := do
  accessWithin ((← get).futures.size + 1) op r id

def loadItems : SessionM (List Item) :=
  accessFrom .load r id

def storeItems : SessionM (List Item) :=
  accessFrom .store r id

-- The entry that a future denotes when it is compared. An index that is a future of an array counts
-- as zero.
def addressEntry : SessionM Operand := do
  match (← futureCell id).place with
  | .register _ => throw .noAttribute
  | .entry address index =>
    match index with
    | .reg r => return .entry address (.reg r)
    | .future inner =>
      match (← futureCell inner).place with
      | .register none => throw .unmet
      | .register (some r) => return .entry address (.reg r)
      | .entry _ _ =>
        let words ← try futureText inner catch _ => pure ""
        return .entry address (.shown 0 words)
    | v =>
      match v.int? with
      | some i => return .entry address (.int i)
      | none => throw (.session (.badIndex v.plainText))

---- Addition

-- What is added: a loaded future or an operand as it is.
structure Addend where
  operand : Operand
  register : Option Reg
  load : List Item
  store : List Item

def addendOf : Value → SessionM Addend
  | .future id => do
    match (← futureCell id).place with
    | .register _ => return ⟨← operandOf (.future id), none, [], []⟩
    | .entry _ _ =>
      let r ← takeRegister
      let load ← loadItems r id
      let store ← storeItems r id
      return ⟨.reg r, some r, load, store⟩
  | .reg r => return ⟨.reg r, none, [], []⟩
  | v => do
    if v.int?.isNone then throw (.session .badAddend)
    return ⟨← operandOf v, none, [], []⟩

-- The command that adds to a register, with or without a modulus.
def addition (operand : Operand) : Value → SessionM Item
  | .none => return command .add [.reg r, .reg r, operand]
  | .future id => do
    return command .addm [.reg r, .reg r, operand, ← operandOf (.future id)]
  | v => do
    if v.int?.isNone then throw (.unexplained .unimplemented)
    return command .addm [.reg r, .reg r, operand, ← operandOf v]

def namedRegister : Value → SessionM Value
  | .text s => return .reg (← Reg.parse s.toList)
  | v => return v

-- Add a value to a future, modulo a number if one is given.
def increase (other modulus : Value) : SessionM Unit := do
  match (← futureCell id).place with
  | .register none => throw .unmet
  | .register (some r) =>
    let addend ← addendOf (← namedRegister other)
    let sum ← addition r addend.operand modulus
    addend.register.forM release
    add (addend.load ++ [sum] ++ addend.store)
  | .entry _ _ =>
    let other ← namedRegister other
    let r ← takeRegister
    let load ← loadItems r id
    let store ← storeItems r id
    let addend ← addendOf other
    let sum ← addition r addend.operand modulus
    release r
    addend.register.forM release
    add (load ++ addend.load ++ [sum] ++ store ++ addend.store)

-- The future of an entry; a register may be given by its name.
def futureAt (a : HostArray) (index : Value) : SessionM Nat := do
  entryFuture a (← namedRegister index)

-- The bounds and the step that are given, which have to be numbers.
def rangeArguments : List Value → SessionM (List Int)
  | [] => return []
  | .none :: rest => rangeArguments rest
  | .future _ :: rest => do return 0 :: (← rangeArguments rest)
  | v :: rest => do
    match v.int? with
    | some i => return i :: (← rangeArguments rest)
    | none => throw (.session (.badSlice v.typeText))

def steps (start stop step : Int) : Checked (List Int) :=
  if step = 0 then .error .malformed
  else .ok ((List.range (Slice.count start stop step)).map fun k => start + Int.ofNat k * step)

-- The futures of a slice. Its given parts are taken as the arguments of a range: a single one is
-- where to stop.
def sliceFutures (a : HostArray) (parts : List Value) : SessionM (List Nat) := do
  let places ← match ← rangeArguments parts with
    | [stop] => steps 0 stop 1
    | [start, stop] => steps start stop 1
    | [start, stop, step] => steps start stop step
    | _ => throw .mistyped
  places.mapM fun i => entryFuture a (.int i)

end QuantumNode.Session

namespace QuantumNode

---- Operations

inductive BinaryOp
  | add
  | sub
  | mul
  | floorDiv
  | trueDiv
  | mod
  | divMod
  | pow
  | and
  | or
  | xor
  | shiftLeft
  | shiftRight
  | eq
  | ne
  | lt
  | le
  | gt
  | ge
  deriving DecidableEq

inductive UnaryOp
  | same
  | abs
  | neg
  | invert
  | isTrue
  | toFloat
  | bitLength
  | hash
  deriving DecidableEq

namespace Number

def bitLength (v : Int) : Nat :=
  if v = 0 then 0 else v.natAbs.log2 + 1

def ofBits (width : Nat) (n : Nat) : Int :=
  if n < Nat.pow 2 (width - 1) then n else (n : Int) - Nat.pow 2 width

-- An operation on the digits of two numbers, as many as both need.
def bitwise (f : Nat → Nat → Nat) (a b : Int) : Int :=
  let width := max (bitLength a) (bitLength b) + 1
  ofBits width (f (a.emod (Nat.pow 2 width)).toNat (b.emod (Nat.pow 2 width)).toNat)

-- A power; a negative exponent gives a fraction.
def power (a b : Int) : Checked Value :=
  if 0 ≤ b then .ok (.int (Int.pow a b.toNat))
  else if a = 0 then .error (.unexplained .divisionByZero)
  else .ok (.float (Float.pow (Float.ofInt a) (Float.ofInt b)))

-- Division has to be by a number other than zero.
def divided (b : Int) (v : Value) : Checked Value :=
  if b = 0 then .error (.unexplained .divisionByZero) else .ok v

def shifted (b : Int) (v : Nat → Int) : Checked Value :=
  if b < 0 then .error .malformed else .ok (.int (v b.toNat))

def hashModulus : Nat := Nat.pow 2 61 - 1

-- A hash keeps the sign; minus one is no hash.
def hash (v : Int) : Int :=
  let h := Int.sign v * Int.ofNat (v.natAbs % hashModulus)
  if h = -1 then -2 else h

-- The nearest multiple of a power of ten; of two it is the even one.
def roundTo (v : Int) (digits : Int) : Int :=
  if 0 ≤ digits then v
  else
    let unit : Int := Nat.pow 10 digits.natAbs
    let low := v.fdiv unit
    let rest := 2 * v.fmod unit
    unit * (if rest < unit || (rest = unit && low.fmod 2 = 0) then low else low + 1)

-- A power by repeated squaring, reduced at every step.
def powerWithin (m : Int) : Nat → Int → Nat → Int
  | 0, _, _ => (1 : Int).fmod m
  | bits + 1, a, n =>
    let half := powerWithin m bits (a * a % m) (n / 2)
    if n % 2 = 1 then (a * half).fmod m else half.fmod m

def inverseWithin : Nat → Int → Int → Int → Int → Int × Int
  | 0, r, _, x, _ => (r, x)
  | fuel + 1, r, s, x, y =>
    if s = 0 then (r, x) else inverseWithin fuel s (r - r.fdiv s * s) y (x - r.fdiv s * y)

-- A power modulo a number; a negative exponent needs an inverse.
def powerModulo (a b m : Int) : Checked Value :=
  if m = 0 then .error .malformed
  else if 0 ≤ b then .ok (.int (powerWithin m (bitLength b) (a.fmod m) b.toNat))
  else
    let (g, x) := inverseWithin (2 * bitLength m + 2) (a.emod m) m.natAbs 1 0
    if g.natAbs ≠ 1 then .error .malformed
    else .ok (.int (powerWithin m (bitLength b) ((g * x).fmod m) b.natAbs))

-- The result of an operation; quotients are rounded down.
def binary (op : BinaryOp) (a b : Int) : Checked Value :=
  match op with
  | .add => .ok (.int (a + b))
  | .sub => .ok (.int (a - b))
  | .mul => .ok (.int (a * b))
  | .floorDiv => divided b (.int (a.fdiv b))
  | .trueDiv => divided b (.float (Float.ofInt a / Float.ofInt b))
  | .mod => divided b (.int (a.fmod b))
  | .divMod => divided b (.list [.int (a.fdiv b), .int (a.fmod b)])
  | .pow => power a b
  | .and => .ok (.int (bitwise (· &&& ·) a b))
  | .or => .ok (.int (bitwise (· ||| ·) a b))
  | .xor => .ok (.int (bitwise (· ^^^ ·) a b))
  | .shiftLeft => shifted b fun n => a * Nat.pow 2 n
  | .shiftRight => shifted b fun n => a.fdiv (Nat.pow 2 n)
  | .eq => .ok (.bool (a = b))
  | .ne => .ok (.bool (a ≠ b))
  | .lt => .ok (.bool (a < b))
  | .le => .ok (.bool (a ≤ b))
  | .gt => .ok (.bool (b < a))
  | .ge => .ok (.bool (b ≤ a))

def unary (op : UnaryOp) (a : Int) : Value :=
  match op with
  | .same => .int a
  | .abs => .int a.natAbs
  | .neg => .int (-a)
  | .invert => .int (-a - 1)
  | .isTrue => .bool (a ≠ 0)
  | .toFloat => .float (Float.ofInt a)
  | .bitLength => .int (bitLength a)
  | .hash => .int (hash a)

def notApplicable : Value := .text "NotImplemented"

end Number

namespace Session

-- The number that a value stands for; other values have none.
def numberOf : Value → SessionM Int
  | .future f => knownValue f
  | v =>
    match v.int? with
    | some i => return i
    | none => throw .noAttribute

variable (v : Value)

-- The other number of an operation. It must not be a future of an array if the first one is a
-- future; other futures count as zero.
def otherNumber? : Value → SessionM (Option Int)
  | .future f => do
    match v, (← futureCell f).place with
    | .future _, .entry _ _ => throw (.session .twoFutures)
    | _, _ => return some 0
  | w => return w.int?

def applyUnary (op : UnaryOp) (v : Value) (arguments : List Value) : SessionM Value := do
  let a ← numberOf v
  match arguments with
  | [] => return Number.unary op a
  | [w] =>
    let _ ← otherNumber? v w
    throw .mistyped
  | _ => throw .mistyped

-- Round a value to some digits; it is whole already.
def applyRound (arguments : List Value) : SessionM Value := do
  let a ← numberOf v
  match arguments with
  | [] => return .int a
  | [w] =>
    match ← otherNumber? v w with
    | some digits => return .int (Number.roundTo a digits)
    | none => throw .mistyped
  | _ => throw .mistyped

-- Apply an operation to a value and another one, which may come first.
def applyBinary (op : BinaryOp) (reversed : Bool) (v : Value)
    (arguments : List Value) : SessionM Value := do
  let a ← numberOf v
  match arguments with
  | [w] =>
    match ← otherNumber? v w with
    | some b => if reversed then Number.binary op b a else Number.binary op a b
    | none => return Number.notApplicable
  | _ => throw .mistyped

-- The number that an argument stands for; futures count as zero.
def plainNumber? : Value → Option Int
  | .future _ => some 0
  | v => v.int?

-- A power, perhaps modulo a number.
def applyPower (arguments : List Value) : SessionM Value := do
  match arguments with
  | [w, .none] => applyBinary .pow false v [w]
  | [w, m] =>
    let a ← numberOf v
    match plainNumber? w, plainNumber? m with
    | some b, some m => Number.powerModulo a b m
    | _, _ => return Number.notApplicable
  | _ => applyBinary .pow false v arguments

-- What is no operation can be named but not applied, once there is a value.
def applyAttribute : SessionM Value := do
  let _ ← numberOf v
  throw .mistyped

end Session

end QuantumNode
