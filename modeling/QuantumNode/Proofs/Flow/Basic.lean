import QuantumNode.Proofs.Assembly.Layout
import QuantumNode.Proofs.Session.Frame

/-
  Programs as an application writes them: operations of a session with loops and conditions around
  them. Building a flow adds its commands to a session. A flow is read as it is written: the body of
  a condition is carried out if the condition holds, the body of a loop once for each index. On
  nodes that agree on the registers in scope, commands have the same effect, and the registers that
  they write to agree from then on.
-/

namespace QuantumNode
namespace Flow

inductive Spot
  | number (i : Int)
  | register (r : Reg)
  deriving DecidableEq

def Spot.index : Spot → Index
  | number i => .int i
  | register r => .reg r

-- What is compared: a number, a register or an entry of an array.
inductive Term
  | number (v : Int)
  | register (r : Reg)
  | entry (address : Int) (spot : Spot)
  deriving DecidableEq

namespace Term

def registers : Term → List Reg
  | number _ => []
  | register r => [r]
  | entry _ (.number _) => []
  | entry _ (.register r) => [r]

def numbers : Term → List Int
  | number v => [v]
  | _ => []

def loads : Term → Nat
  | entry _ _ => 1
  | _ => 0

end Term

def Spot.isAt (s : Session) : Spot → Value → Bool
  | number i, .int j => i = j
  | register r, .reg q => r = q
  | register r, .future id =>
    match s.place? id with
    | some (.register (some q)) => r = q
    | _ => false
  | _, _ => false

def Term.isGivenBy (s : Session) : Term → Value → Bool
  | number v, .int w => v = w
  | register r, .future id =>
    match s.place? id with
    | some (.register (some q)) => r = q
    | _ => false
  | entry address spot, .future id =>
    match s.place? id with
    | some (.entry a i) => address = a && spot.isAt s i
    | _ => false
  | _, _ => false

-- A comparison of values of the application, with the terms that they stand for.
structure Test where
  op : Op
  left : Value
  right : Value
  first : Term
  second : Option Term

namespace Test

def terms (c : Test) : List Term :=
  if c.op = .bez || c.op = .bnz then [c.first] else c.first :: c.second.toList

-- How many registers stay in use behind a comparison.
def strays (c : Test) : Nat := if c.op = .bez || c.op = .bnz then c.first.loads else 0

-- Whether the values stand for the terms.
def isMet (s : Session) (c : Test) : Bool :=
  c.first.isGivenBy s c.left && match c.second, c.right with
    | none, .none => true
    | some b, v => b.isGivenBy s v
    | _, _ => false

end Test

-- The rounds of a loop, which is written as a call, as a block or as a block for each entry of an
-- array.
inductive Rounds
  | called (start stop step : Int)
  | block (start stop step : Int)
  | entries (array : HostArray)

namespace Rounds

def start : Rounds → Int
  | called i _ _ | block i _ _ => i
  | entries _ => 0

def stop : Rounds → Int
  | called _ i _ | block _ i _ => i
  | entries array => array.length

def step : Rounds → Int
  | called _ _ i | block _ _ i => i
  | entries _ => 1

variable (rounds : Rounds)

def range : LoopRange := ⟨.int rounds.start, .int rounds.stop, .int rounds.step⟩

def index (k : Nat) : Int := rounds.start + k * rounds.step

-- How many rounds there are until the index is where it stops.
def count : Nat := ((rounds.stop - rounds.start) / rounds.step).toNat

def Reaches : Prop := ∃ k, rounds.index k = rounds.stop

theorem index_count {rounds : Rounds} (hReaches : rounds.Reaches) :
    rounds.index rounds.count = rounds.stop := by
  rcases hReaches with ⟨k, hStop⟩
  unfold index at hStop ⊢
  have hDistance : rounds.stop - rounds.start = k * rounds.step := by omega
  unfold count
  rw [hDistance]
  by_cases hStep : rounds.step = 0
  · rw [hStep] at hStop ⊢
    simpa using hStop
  · rw [Int.mul_ediv_cancel _ hStep]
    exact hStop

instance (rounds : Rounds) : Decidable rounds.Reaches :=
  decidable_of_iff (rounds.index rounds.count = rounds.stop) ⟨fun h => ⟨_, h⟩, index_count⟩

-- It does not get there in an earlier round.
theorem index_eq_stop_iff {rounds : Rounds} (hReaches : rounds.Reaches) {k : Nat}
    (hLe : k ≤ rounds.count) : rounds.index k = rounds.stop ↔ k = rounds.count := by
  refine ⟨fun hStop => ?_, fun hLast => hLast ▸ index_count hReaches⟩
  have hCount := index_count hReaches
  unfold index at hStop hCount
  by_cases hStep : rounds.step = 0
  · have hNone : rounds.count = 0 := by simp [count, hStep]
    omega
  · exact Int.natCast_inj.mp (Int.eq_of_mul_eq_mul_right hStep (by omega))

-- The registers that are held behind a loop: those taken in its rounds, if there are any, apart
-- from its own.
def leaving (r : Reg) (taken : List Reg) : List Reg :=
  if rounds.count = 0 then [] else taken.filter (· ≠ r)

end Rounds

end Flow

/-
  Programs with loops and conditions. The commands that an operation of the session adds are written
  next to it, with the registers that the program holds from then on; a condition is written with
  the terms that its values stand for, and a loop with the register it counts in.
-/
inductive Flow
  | done
  | act (x : SessionM Unit) (commands : List Command) (kept : List Reg) (rest : Flow)
  | when (asBlock : Bool) (test : Flow.Test) (body rest : Flow)
  | loop (rounds : Flow.Rounds) (r : Reg) (body rest : Flow)

namespace Flow

def isSilent : Flow → Bool
  | done => true
  | act _ commands _ rest => commands.isEmpty && rest.isSilent
  | when _ _ body rest => body.isSilent && rest.isSilent
  | loop _ _ body rest => body.isSilent && rest.isSilent

def commands : Flow → List Command
  | done => []
  | act _ commands _ rest => commands ++ rest.commands
  | when _ _ body rest => body.commands ++ rest.commands
  | loop _ _ body rest => body.commands ++ rest.commands

-- The registers that a program takes in a flow and holds behind it.
def taken : Flow → List Reg
  | done => []
  | act _ _ kept rest => rest.taken ++ kept
  | when _ _ _ rest => rest.taken
  | loop rounds r body rest => rest.taken ++ rounds.leaving r body.taken

def append : Flow → Flow → Flow
  | done, g => g
  | act x commands kept rest, g => act x commands kept (rest.append g)
  | when asBlock test body rest, g => when asBlock test body (rest.append g)
  | loop rounds r body rest, g => loop rounds r body (rest.append g)

open Session in
-- An operation has to add the commands and to hold the registers written next to it.
def perform (x : SessionM Unit) (commands : List Command) (kept : List Reg) : SessionM Unit := do
  let before := (← get).pending
  x
  let s ← get
  let added := s.pending.drop before.length
  demand (added.map Item.bare = commands.map fun c => (Item.command c).bare) .unmet
  demand (kept.all s.allocation.isUsed) .unmet

open Session in
def guarded (asBlock : Bool) (test : Test) (body : SessionM Unit) : SessionM Unit := do
  demand (test.isMet (← get)) .unmet
  if asBlock then ifBlock test.op test.left test.right body
  else ifBody test.op test.left test.right body

-- The register of a future has to be the one that is written.
def expectRegister (r : Reg) (index : Nat) : SessionM Unit := do
  match (← Session.futureCell index).place with
  | .register (some q) => demand (q = r) .unmet
  | _ => throw .unmet

open Session in
-- A loop around a body, which has to count in a given register.
def repeated (r : Reg) (body : SessionM Unit) : Flow.Rounds → SessionM Unit
  | .called start stop step =>
    loopBody (Rounds.called start stop step).range none fun index => do
      expectRegister r index
      body
  | .block start stop step =>
    loopBlock (Rounds.block start stop step).range .none fun q => do
      demand (q = r) .unmet
      body
  | .entries array =>
    foreachBlock array fun q _ => do
      demand (q = r) .unmet
      body

def build : Flow → SessionM Unit
  | done => return ()
  | act x commands kept rest => do
    perform x commands kept
    rest.build
  | when asBlock test body rest => do
    guarded asBlock test body.build
    rest.build
  | loop rounds r body rest => do
    repeated r body.build rounds
    rest.build

end Flow

end QuantumNode

namespace QuantumNode.Flow
open Draft Node

---- Readings

structure Visit where
  command : Command
  scope : List Reg
  state : Node

-- What is carried out, how it ends and the state that is left.
structure Reading where
  visits : List Visit
  result : Except Fault Unit
  state : Node

namespace Reading

def still (s : Node) : Reading := ⟨[], .ok (), s⟩

-- Go on behind an operation that is not one of the program.
def after {α : Type} (x : NodeM α) (next : α → Node → Reading) (s : Node) : Reading :=
  match effect x s with
  | (.ok a, t) => next a t
  | (.error e, t) => ⟨[], .error e, t⟩

def single (x : NodeM Unit) (c : Command) (scope : List Reg) (s : Node) : Reading :=
  ⟨[⟨c, scope, s⟩], (effect x s).1, (effect x s).2⟩

-- Go on unless something was refused.
def andThen (first : Reading) (next : Node → Reading) : Reading :=
  match first.result with
  | .ok _ =>
    let later := next first.state
    ⟨first.visits ++ later.visits, later.result, later.state⟩
  | .error _ => first

-- Go on unless there is nothing to do.
def skipIf (silent : Bool) (next : Node → Reading) (s : Node) : Reading :=
  if silent then still s else next s

def rounds (round : Nat → Node → Reading) : Nat → Nat → Node → Reading
  | 0, _, s => still s
  | n + 1, k, s => (round k s).andThen (rounds round n (k + 1))

end Reading

def obey (sub : Nat) (c : Command) : NodeM Unit := do
  checkAll c.constants
  let _ ← carryOut sub c.op c.inputs

def readCommands (sub : Nat) (scope : List Reg) : List Command → Node → Reading
  | [], s => .still s
  | c :: rest, s => (Reading.single (obey sub c) c scope s).andThen (readCommands sub scope rest)

---- Conditions and loops

-- A term with the value of an entry in place of the entry, which has to be defined.
def lookUp (sub : Nat) : Term → NodeM Operand
  | .number v => return .int v
  | .register r => return .reg r
  | .entry address spot => do
    checkAll spot.index.constants
    match ← readEntry (← appOf sub) address spot.index with
    | none => throw (.node (.entryUndefined (Operand.entry address spot.index).text))
    | some v =>
      Block.checkWidth (← get).hardware v
      return .int v

def lookUpAll (sub : Nat) : List Term → NodeM (List Operand)
  | [] => return []
  | a :: rest => do
    let o ← lookUp sub a
    return o :: (← lookUpAll sub rest)

def holds (sub : Nat) (op : Op) (terms : List Term) : NodeM Bool := do
  let operands ← lookUpAll sub terms
  checkAll (terms.flatMap Term.numbers)
  takenWith ofOperand sub op operands

def setIndex (sub : Nat) (r : Reg) (v : Int) : NodeM Unit := do
  setReg (← appOf sub) r v

def enter (sub : Nat) (r : Reg) (rounds : Rounds) : NodeM Unit := do
  setIndex sub r rounds.start
  checkAll [rounds.stop]

def advance (sub : Nat) (r : Reg) (rounds : Rounds) (k : Nat) : NodeM Unit := do
  checkAll [rounds.step]
  setIndex sub r (rounds.index (k + 1))
  checkAll [rounds.stop]

-- Read a flow from a state, with the registers that the program holds. Conditions and loops around
-- nothing are left out.
def read (sub : Nat) : Flow → List Reg → Node → Reading
  | done, _, s => .still s
  | act _ commands kept rest, scope, s =>
    (readCommands sub scope commands s).andThen (rest.read sub (kept ++ scope))
  | when _ test body rest, scope, s =>
    (Reading.skipIf body.isSilent (.after (holds sub test.op test.terms) fun taken =>
        if taken then body.read sub scope else .still)
      s).andThen
      (rest.read sub scope)
  | loop rounds r body rest, scope, s =>
    (Reading.skipIf body.isSilent (.after (enter sub r rounds) fun _ =>
        .rounds (fun k s =>
            (body.read sub (r :: scope) s).andThen
              (.after (advance sub r rounds k) fun _ => .still))
          rounds.count 0)
      s).andThen
      (rest.read sub (rounds.leaving r body.taken ++ scope))

---- Registers in scope

-- The registers that an operation reads: operands and places in arrays.
def sourcesFrom (target : Option Nat) : Nat → List Operand → List Reg
  | _, [] => []
  | place, o :: rest =>
    (if target = some place then [] else o.reg?.toList) ++ indexRegs o ++
      sourcesFrom target (place + 1) rest

-- Standard registers that are in scope, and all others.
def Live (scope : List Reg) (r : Reg) : Prop := r.bank = .r → r ∈ scope

instance (scope : List Reg) : DecidablePred (Live scope) := fun r =>
  inferInstanceAs (Decidable (r.bank = .r → r ∈ scope))

-- Commands that do not branch, read registers in scope only and do not write to the registers of
-- loops around them.
@[mk_iff] structure Straight (loops scope : List Reg) (c : Command) : Prop where
  onward : forks? c.op c.inputs = none
  unlabelled : ∀ o ∈ c.inputs, label? o = none
  writes : ∀ j ∈ target? c.op, ∀ o ∈ c.inputs[j]?, o.number? = none
  spares : ∀ r ∈ outputs c.op c.inputs, r ∉ loops
  reads : ∀ r ∈ sourcesFrom (target? c.op) 0 c.inputs, Live scope r

instance (loops scope : List Reg) (c : Command) : Decidable (Straight loops scope c) :=
  decidable_of_iff' _ (straight_iff loops scope c)

-- A register that a command writes to is in scope for the commands behind it.
def AllStraight (loops : List Reg) : List Reg → List Command → Prop
  | _, [] => True
  | scope, c :: rest =>
    Straight loops scope c ∧ AllStraight loops (outputs c.op c.inputs ++ scope) rest

instance AllStraight.decidable (loops : List Reg) :
    ∀ scope commands, Decidable (AllStraight loops scope commands)
  | _, [] => isTrue trivial
  | scope, c :: rest =>
    let _ := AllStraight.decidable loops (outputs c.op c.inputs ++ scope) rest
    inferInstanceAs (Decidable (_ ∧ _))

-- Flows in which registers are named only while the program holds them: those it held before, those
-- of the loops around and those that it took in the same sequence.
def Scoped : List Reg → List Reg → Flow → Prop
  | _, _, done => True
  | loops, scope, act _ commands kept rest =>
    AllStraight loops scope commands ∧
      (∀ r ∈ kept, r ∈ commands.flatMap fun c => outputs c.op c.inputs) ∧
      Scoped loops (kept ++ scope) rest
  | loops, scope, when _ test body rest =>
    (∀ t ∈ test.terms, ∀ r ∈ t.registers, Live scope r) ∧
      Scoped loops scope body ∧ Scoped loops scope rest
  | loops, scope, loop rounds r body rest =>
    rounds.Reaches ∧ Scoped (r :: loops) (r :: scope) body ∧
      Scoped loops (rounds.leaving r body.taken ++ scope) rest

instance Scoped.decidable : ∀ loops scope f, Decidable (Scoped loops scope f)
  | _, _, done => isTrue trivial
  | loops, scope, act _ _ kept rest =>
    let _ := Scoped.decidable loops (kept ++ scope) rest
    inferInstanceAs (Decidable (_ ∧ _ ∧ _))
  | loops, scope, when _ _ body rest =>
    let _ := Scoped.decidable loops scope body
    let _ := Scoped.decidable loops scope rest
    inferInstanceAs (Decidable (_ ∧ _ ∧ _))
  | loops, scope, loop rounds r body rest =>
    let _ := Scoped.decidable (r :: loops) (r :: scope) body
    let _ := Scoped.decidable loops (rounds.leaving r body.taken ++ scope) rest
    inferInstanceAs (Decidable (_ ∧ _ ∧ _))

---- Commands

variable {held : List (Reg × Int)} {items : List Item} {os os' : List Operand}
  {scope wider : List Reg} {o : Operand} {P : Pairing}

open Draft Node Node.Linked

-- Registers in scope agree; the host sees the same everywhere.
def view (scope : List Reg) (held : List (Reg × Int)) : View := ⟨Live scope, fun _ => True, held⟩

theorem Live.mono (hWider : scope ⊆ wider) (hLive : Live scope r) : Live wider r :=
  fun hBank => hWider (hLive hBank)

theorem view_weaker (hWider : scope ⊆ wider) (hMore : held ⊆ more) :
    (view scope held).Weaker (view wider more) :=
  ⟨fun _ hLive => hLive.mono hWider, fun _ hr => hr, fun _ hp => hMore hp⟩

-- Operands of drafts with the same value: the same operand, if it is no register that may differ,
-- or a number and a register that holds it.
inductive ReadAlike (V : View) : Operand → Operand → Prop
  | same {o : Operand} : (∀ r, o = .reg r → V.named r) → ReadAlike V o o
  | held {o : Operand} {v : Int} {r : Reg} : o.number? = some v → Registers.checkPlace r = .ok () →
      (r, v) ∈ V.held → ReadAlike V o (.reg r)

def IndexAlike (V : View) (i j : Index) : Prop := i = j ∧ ∀ r, i = .reg r → V.named r

def alike (V : View) : Pairing := ⟨ReadAlike V, IndexAlike V⟩

variable {sub : Nat} {app : Int} {V : View}

theorem alike_sound : (alike V).Sound sub app V ofOperand ofOperand := by
  constructor
  · intro o _ hAlike
    cases hAlike with
    | same hNamed =>
      cases hNumber : o.number? with
      | some v =>
        rw [ofOperand_number hNumber]
        exact SimTo.pure rfl
      | none =>
        cases o with
        | reg r => exact sim_getReg (hNamed r rfl)
        | _ =>
          simp only [ofOperand, hNumber]
          exact SimTo.throw rfl
    | held hNumber hPlace hHeld => exact sim_heldNumber hNumber hPlace hHeld
  · rintro i j ⟨rfl, hNamed⟩
    cases i with
    | reg r => exact sim_evalIndex (.reg (hNamed r rfl))
    | _ => exact SimTo.pure rfl

theorem match_alike {written : Bool} {slot : Slot} {o' : Operand}
    (hFits : Match P written slot o o') (hReads : written = false → ∀ r, o = .reg r → V.named r)
    (hIndices : ∀ r ∈ indexRegs o, V.named r) : Match (alike V) written slot o o := by
  cases hFits with
  | written => exact .written
  | read _ => exact .read (.same (hReads rfl))
  | number hNumeric _ hSome => exact .number hNumeric rfl hSome
  | addr => exact .addr
  | @entry _ a i j _ =>
    refine .entry ⟨rfl, ?_⟩
    rintro r rfl
    exact hIndices r (by simp [indexRegs])
  | @slice _ a lo lo' hi hi' _ _ =>
    refine .slice ⟨rfl, ?_⟩ ⟨rfl, ?_⟩
    · rintro r rfl
      cases hi <;> exact hIndices r (by simp [indexRegs])
    · rintro r rfl
      cases lo <;> exact hIndices r (by simp [indexRegs])

theorem matchFrom_alike (hFits : MatchFrom P target place slots os os')
    (hSources : ∀ r ∈ sourcesFrom target place os, V.named r) :
    MatchFrom (alike V) target place slots os os := by
  induction hFits with
  | nil => exact .nil
  | @cons place slot slots o o' rest rest' hFirst _ ih =>
    refine .cons (match_alike hFirst ?_ ?_) (ih ?_)
    · rintro hRead r rfl
      have hOther : target ≠ some place := by
        intro hTarget
        simp [hTarget] at hRead
      exact hSources r (by simp [sourcesFrom, hOther, Operand.reg?])
    · intro r hr
      exact hSources r (by simp [sourcesFrom, hr])
    · intro r hr
      exact hSources r (by simp [sourcesFrom, hr])

theorem blind_checkAll (values : List Int) : Blind (checkAll values) := by
  induction values with
  | nil => exact .pure _
  | cons v rest ih => exact .get (fun _ _ => rfl) fun _ => .bind (.lift _) fun _ => ih

theorem blind_showValue (app v : Int) : Blind (showValue app v) :=
  .bind (Blind.trait.sharedOf app) fun _ => .get (fun _ _ => rfl) fun _ => .lift _

theorem sim_returnedAlike (hAlike : ReadAlike V o o) :
    Sim (Linked sub app V) Eq (carryOut sub .retReg [o]) (carryOut sub .retReg [o]) := by
  cases hNumber : o.number? with
  | some v =>
    simp only [carryOut, returned?, hNumber]
    refine sim_forApp ?_
    exact (sim_blind (blind_showValue _ v)).done
  | none =>
    cases o with
    | imm v | int v | shown v words => cases hNumber
    | reg r =>
      have hNamed : V.named r := by
        cases hAlike with
        | same hNamed => exact hNamed r rfl
        | held hSome => cases hNumber.symm.trans hSome
      exact sim_performReturn ofOperand ofOperand .core .core hNamed
    | _ =>
      exact sim_forApp (SimTo.bind_eq (alike_sound.sim_demandValue hAlike) fun _ =>
        (sim_blind (Blind.emit _)).done)

theorem sim_carryOutAlike (hMatch : MatchFrom (alike V) (target? op) 0 op.slots os os)
    (hStraight : forks? op os = none) (hFree : ∀ r ∈ outputs op os, ∀ p ∈ V.held, p.1 ≠ r) :
    SimTo (Linked sub app V) (Linked sub app (V.writing (outputs op os))) Eq
      (carryOut sub op os) (carryOut sub op os) := by
  by_cases hReturn : op = .retReg
  · subst hReturn
    rcases hMatch with _ | ⟨hValue, ⟨⟩⟩
    refine (sim_returnedAlike hValue.toRead).relax fun s t hLinked => ?_
    refine hLinked.mono ⟨fun r hr => ?_, fun _ hr => hr, fun _ hp => hp⟩
    exact hr.resolve_right List.not_mem_nil
  · rw [carryOut_eq hReturn]
    exact alike_sound.sim_performWith .core .core hMatch hStraight hReturn hFree

-- A command without labels stands for itself.
theorem map_valued (hUnlabelled : ∀ o ∈ os, label? o = none) : os.map (valued items) = os := by
  have hEach : ∀ o ∈ os, valued items o = o := by
    intro o ho
    cases o with
    | label name => exact absurd (hUnlabelled _ ho) (by simp [label?])
    | _ => rfl
  rw [List.map_congr_left hEach, List.map_id']

-- A command that fits its slots, read by the program and carried out as part of a draft.
theorem sim_obey (hFits : MatchFrom P (target? c.op) 0 c.op.slots c.inputs os')
    (hStraight : Straight loops scope c) (hLoops : held.map Prod.fst = loops) :
    SimTo (Linked sub app (view scope held))
      (Linked sub app (view (outputs c.op c.inputs ++ scope) held)) (fun _ later => later = rest)
      (obey sub c) (Draft.step items sub { c with line := none } rest) := by
  have hMatch := matchFrom_alike (V := view scope held) hFits hStraight.reads
  have hFree : ∀ r ∈ outputs c.op c.inputs, ∀ p ∈ held, p.1 ≠ r := by
    rintro r hr p hp rfl
    exact hStraight.spares _ hr (hLoops ▸ List.mem_map_of_mem hp)
  have hStep : Draft.step items sub { c with line := none } rest = (do
      checkAll c.constants
      let _ ← carryOut sub c.op c.inputs
      return rest) := by
    have hOnward : forks? c.op (Command.inputs { c with line := none }) = none := hStraight.onward
    have hValued : (Command.inputs { c with line := none }).map (valued items) = c.inputs :=
      map_valued hStraight.unlabelled
    simp only [Draft.step, proceed, hOnward, hValued]
    rfl
  rw [hStep]
  refine SimTo.bind_eq (sim_blind (blind_checkAll _)) fun _ => ?_
  refine ((sim_carryOutAlike hMatch hStraight.onward hFree).answer
    (Q := fun _ later => later = rest) (f := fun _ => ()) (g := fun _ => rest)
    fun _ _ _ => rfl).relax fun s t hLinked => ?_
  refine hLinked.mono ⟨fun r hLive => ?_, fun _ hr => hr, fun _ hp => hp⟩
  by_cases hWritten : r ∈ outputs c.op c.inputs
  · exact .inr hWritten
  · exact .inl fun hBank => (List.mem_append.mp (hLive hBank)).resolve_left hWritten

end QuantumNode.Flow
