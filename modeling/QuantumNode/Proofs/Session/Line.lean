import QuantumNode.Proofs.Session.Handles

/-
  Lines of nodes that share a state of all their qubits.  Each two
  neighbours have a pair, and both its qubits are found at the same
  bit.  A node between two others measures whether the bits of its
  two pairs differ.  A node above the first one is told whether its
  bit differs from that of the first one.  It flips the qubit if so,
  and tells the next node.

  Main declarations:
    * Basis, what commands do to qubits in basis states
    * Station.Rising, nodes one above the other
    * line_agrees
-/

open List Function

namespace QuantumNode.Session
variable {s t : Session} {q k : Nat} {a b m array : Int} {r : Reg}

---- Outcomes that are read

-- A value is looked up without regard to pending commands, and nothing is sent.
theorem lookup_withPending (place : Place) (s : Session) :
    ∃ found t, t.sent = s.sent ∧
      ∀ items, effect (lookup place) (withPending items s) = (found, withPending items t) := by
  have hBackend : ∀ items, (withPending items s).backend = s.backend := fun _ => rfl
  have hShared : ∀ (node : Node) (f : SharedMemory → Checked (Option Int)),
      ∃ found t, t.sent = s.sent ∧ ∀ items,
        effect (do let m ← sharedMemory node; f m) (withPending items s) =
          (found, withPending items t) := by
    intro node f
    simp only [sharedMemory, effect_bind, effect_get, withPending]
    cases s.memory.or (node.bank.find? s.node (some s.appId)) with
    | none => exact ⟨_, s, rfl, fun _ => rfl⟩
    | some n => exact ⟨f (node.bank.get n), { s with memory := some n }, rfl, fun _ => rfl⟩
  unfold lookup
  split
  · split
    · simp only [readEntry, effect_get_bind, hBackend]
      cases s.backend with
      | none => exact ⟨_, s, rfl, fun _ => rfl⟩
      | some node => exact hShared node _
    · exact ⟨_, s, rfl, fun _ => rfl⟩
  · exact ⟨_, s, rfl, fun _ => rfl⟩
  · simp only [readRegister, effect_get_bind, hBackend]
    cases s.backend with
    | none => exact ⟨_, s, rfl, fun _ => rfl⟩
    | some node => exact hShared node _

theorem outcomeValue_withPending {v : Value} (hRead : (effect (outcomeValue v) s).1 = .ok m)
    (items : List Item) :
    ∃ t, t.sent = s.sent ∧
      effect (outcomeValue v) (withPending items s) = (.ok m, withPending items t) := by
  cases v with
  | future f =>
    have hSame : (withPending items s).futures = s.futures := rfl
    simp only [outcomeValue, knownValue, valueOf, futureCell, effect_bind, effect_get, effect_pure,
      hSame] at hRead ⊢
    generalize s.futures.getD f default = cell at hRead ⊢
    rcases cell with ⟨place, _ | v⟩
    · rcases lookup_withPending place s with ⟨found, t, hSent, hFound⟩
      have hHere : effect (lookup place) s = _ := hFound s.pending
      simp only [effect_bind, hFound, hHere] at hRead ⊢
      rcases found with _ | _ | v
      · cases hRead
      · change (effect (futureLabel f >>= _) _).1 = _ at hRead
        rw [effect_bind] at hRead
        generalize effect (futureLabel f) _ = label at hRead
        rcases label with ⟨_ | _, _⟩ <;> cases hRead
      · cases hRead
        exact ⟨{ t with futures := t.futures.setIfInBounds f ⟨place, some m⟩ }, hSent, rfl⟩
    · cases hRead
      exact ⟨s, rfl, rfl⟩
  | _ =>
    cases hRead
    exact ⟨s, rfl, rfl⟩

---- Commands on qubits in basis states

/-
  Qubits that are each in one of the two basis states, by their
  addresses.  Registers hold addresses, and outcomes are listed.
-/
structure Basis where
  bits : Int → Bool
  held : Reg → Int
  outcomes : List Bool

namespace Basis

def obey (w : Basis) : Item → Basis
  | .label _ _ => w
  | .command c =>
    match c.op, c.operands with
    | .set, [.reg r, .int a] => { w with held := update w.held r a }
    | .x, [.reg r] => { w with bits := update w.bits (w.held r) (!w.bits (w.held r)) }
    | .cnot, [.reg r, .reg t] =>
      { w with bits := update w.bits (w.held t) (w.bits (w.held t) ^^ w.bits (w.held r)) }
    | .meas, [.reg r, _] => { w with outcomes := w.outcomes ++ [w.bits (w.held r)] }
    | _, _ => w

def after (w : Basis) (items : List Item) : Basis := items.foldl obey w

end Basis

def flip (a : Int) : List Item :=
  [command .set [.reg (qubitRegister 0), .int a], command .x [.reg (qubitRegister 0)]]

theorem effect_flip (hLines : s.tracker = none) (hPlaced : Placed s q a) :
    effect (gateOn .x q) s = (.ok ⟨⟩, withPending (s.pending ++ flip a) s) := by
  rcases hPlaced.cell with ⟨_, _, hCell⟩
  simp [gateOn, gate, setAddress, effect_bind, effect_qubitCell, hCell, effect_add, effect_emit,
    hLines, withPending, flip, command]

-- One qubit decides whether another one is flipped, which is then measured and freed.
def comparing (a b : Int) (r : Reg) (array : Int) : List Item :=
  let q := Operand.reg (qubitRegister 0)
  let t := Operand.reg (qubitRegister 1)
  [command .set [q, .int a], command .set [t, .int b], command .cnot [q, t],
    command .set [q, .int b], command .meas [q, .reg r], command .qfree [q],
    command .store [.reg r, .entry array (.int 0)]]

-- The outcome is whether the bits differ, and the first qubit keeps its bit.
theorem after_comparing (w : Basis) (r : Reg) (array : Int) (hApart : a ≠ b) :
    (w.after (comparing a b r array)).bits a = w.bits a ∧
      (w.after (comparing a b r array)).outcomes = w.outcomes ++ [w.bits a ^^ w.bits b] := by
  have hRegisters : qubitRegister 0 ≠ qubitRegister 1 := by decide
  simp [Basis.after, comparing, command, Basis.obey, Command.plain, hApart, hRegisters,
    Bool.xor_comm]

-- Compare a qubit with another one, which is in use no more.
def compareQubits (q k : Nat) : SessionM Value := do
  gateOnTwo .cnot q k
  measure k .none false true .z none

theorem effect_deactivate (q : Nat) (s : Session) :
    effect (deactivate q) s = (.ok ⟨⟩, { s with
      qubits := s.qubits.setIfInBounds q { s.qubits.getD q default with active := false }
      allocation := { s.allocation with qubits := s.allocation.qubits.erase q } }) := by
  by_cases hActive : q ∈ s.allocation.qubits <;>
    simp [deactivate, effect_bind, effect_qubitCell, setQubit, allocate, Allocation.isActive,
      Allocation.deactivate, hActive, erase_of_not_mem]

theorem effect_compareQubits (hGeneric : s.hardware.nv = false) (hLines : s.tracker = none)
    (hPlaced : Placed s q a) (hOther : Placed s k b) (hApart : a ≠ b)
    (hFree : (r, false) ∈ s.allocation.outcomes) :
    ∃ r array outcome t, effect (compareQubits q k) s = (.ok outcome, t) ∧
      t.pending = s.pending ++ comparing a b r array ∧ t.tracker = none ∧ Placed t q a := by
  rcases hPlaced.cell with ⟨_, _, hCell⟩
  rcases hOther.cell with ⟨_, _, hCell'⟩
  have hFound : (s.allocation.outcomes.find? fun p => !p.2).isSome := by
    rw [find?_isSome]
    exact ⟨_, hFree, rfl⟩
  rcases Option.isSome_iff_exists.mp hFound with ⟨⟨r, used⟩, hFound⟩
  simp [compareQubits, gateOnTwo, twoQubitGate, measure, measureAt, arrayOf, newArray, entryFuture,
    newFuture, setAddress, setActive, measurement, keepOutcome, futureCell, storeItems, accessFrom,
    accessWithin, Allocation.newOutcome, Value.int?, effect_bind, effect_qubitCell, effect_add,
    effect_emit, effect_currentLine, effect_deactivate, hGeneric, hLines, hCell, hCell', hFound,
    withPending, Allocation.newAddress, Allocation.returnArray, -bind_pure_comp]
  have hQubits : q ≠ k := by
    rintro rfl
    exact hApart (hPlaced.unique hOther)
  rcases hPlaced with ⟨info, name, hHere⟩
  exact ⟨⟨_, _, rfl⟩, info, name, (Array.getElem?_setIfInBounds_ne hQubits.symm).trans hHere⟩

-- Commands are sent, qubits stay where they are.
theorem flush_ok {x : Unit} (hFlush : effect flush s = (.ok x, t)) :
    t.pending = [] ∧ t.qubits = s.qubits ∧ t.tracker = s.tracker := by
  rcases of_bind_ok hFlush with ⟨o, u, hCompile, hLater⟩
  have hCompiled := compile_ok hCompile
  cases o with
  | none =>
    cases hLater
    exact ⟨hCompiled.pending, hCompiled.qubits, hCompiled.tracker⟩
  | some id =>
    rcases hCompiled.program id rfl with ⟨p, hProgram⟩
    rw [effect_get_bind] at hLater
    rcases of_binds_ok hLater with ⟨_, v, hFill, _, w, hCommit, ⟨⟩⟩
    cases instantiate_ok hProgram hFill
    have hInside := (Array.getElem?_eq_some_iff.mp hProgram).1
    rcases commit_ok (p := p.sentFor u.appId) (by simp [hInside]) hCommit with ⟨_, _, _, rfl⟩
    exact ⟨hCompiled.pending, hCompiled.qubits, hCompiled.tracker⟩

---- Nodes of a line

-- The qubit that a node keeps, and that of a second pair.
def pairsOf (c : Chain) : SessionM (Nat × Option Nat) := do
  match c.pairsDown, c.pairsUp with
  | none, none => throw (.session .noPartners)
  | none, some up => return (← onePair .create up, none)
  | some down, none => return (← onePair .receive down, none)
  | some down, some up =>
    let q ← onePair .receive down
    return (q, some (← onePair .create up))

abbrev Ending := Except Fault (Nat × Value × List String) × Session

/-
  A node of a line.  The bit is the one that both qubits of a pair
  are found at, which is the pair with the node below if there is
  one.
-/
structure Station where
  chain : Chain
  start : Session
  qubit : Nat
  above : Option Nat
  address : Int
  bit : Bool

namespace Station
variable {p next : Station} {rest : List Station} {outcome : Value} {messages : Option (List String)}

def compares (p : Station) : SessionM Value :=
  p.above.elim (return .int 0) (compareQubits p.qubit)

-- The session that has pairs.
def paired (p : Station) : Session := (effect (pairsOf p.chain) p.start).2

-- The session whose commands are carried out, and the one behind them.
def joined (p : Station) : Session := (effect p.compares p.paired).2

def shared (p : Station) : Session := (effect flush p.joined).2

-- The commands for the qubits of the pairs.
def commands (p : Station) : List Item := p.joined.pending.drop p.paired.pending.length

-- A node has its pairs and carries out its commands.
structure Ready (p : Station) : Prop where
  pairs : effect (pairsOf p.chain) p.start = (.ok (p.qubit, p.above), p.paired)
  untracked : p.paired.tracker = none
  placed : Placed p.paired p.qubit p.address
  flushed : effect flush p.joined = (.ok ⟨⟩, p.shared)

/-
  A node has a second pair with a given bit.  The outcome that comes
  back is the one of its commands on qubits with these bits.
-/
structure Between (p : Station) (other : Bool) (k : Nat) (b : Int) (r : Reg) : Prop where
  above : p.above = some k
  placed : Placed p.paired k b
  apart : p.address ≠ b
  generic : p.paired.hardware.nv = false
  free : (r, false) ∈ p.paired.allocation.outcomes
  measured : ∃ w : Basis, w.bits p.address = p.bit ∧ w.bits b = other ∧
    ∃ x, (w.after p.commands).outcomes = w.outcomes ++ [x] ∧
      (effect (do let o ← p.compares; flush; outcomeValue o) p.paired).1 = .ok x.toInt

-- What a node has come to before corrections.
structure Joint (p : Station) (outcome : Value) : Prop where
  compared : effect p.compares p.paired = (.ok outcome, p.joined)
  nothing : p.shared.pending = []
  untracked : p.shared.tracker = none
  placed : Placed p.shared p.qubit p.address
  kept : ∀ w : Basis, (w.after p.commands).bits p.address = w.bits p.address

theorem Joint.unchanged (hJoint : p.Joint outcome) : withPending [] p.shared = p.shared := by
  rw [← hJoint.nothing]
  rfl

theorem Ready.joint (hReady : p.Ready) (hAlone : p.above = none) : p.Joint (.int 0) := by
  rcases flush_ok hReady.flushed with ⟨hNothing, hQubits, hTracker⟩
  have hCompares : effect p.compares p.paired = (.ok (.int 0), p.paired) := by
    rw [compares, hAlone]
    rfl
  have hJoined : p.joined = p.paired := by rw [joined, hCompares]
  rw [hJoined] at hQubits hTracker
  refine ⟨hJoined ▸ hCompares, hNothing, hTracker.trans hReady.untracked, ?_, fun w => ?_⟩
  · rw [Placed, hQubits]
    exact hReady.placed
  · rw [commands, hJoined, drop_length]
    rfl

theorem Between.joint (hBetween : p.Between other k b r) (hReady : p.Ready) :
    ∃ outcome, p.Joint outcome ∧
      (effect (outcomeValue outcome) p.shared).1 = .ok (p.bit ^^ other).toInt := by
  rcases flush_ok hReady.flushed with ⟨hNothing, hQubits, hTracker⟩
  rcases effect_compareQubits hBetween.generic hReady.untracked hReady.placed hBetween.placed
    hBetween.apart hBetween.free with ⟨r, array, outcome, t, hCompared, hPending, hLines, hPlaced⟩
  have hCompares : effect p.compares p.paired = (.ok outcome, t) := by
    rw [compares, hBetween.above]
    exact hCompared
  have hJoined : p.joined = t := by rw [joined, hCompares]
  have hCommands : p.commands = comparing p.address b r array := by
    rw [commands, hJoined, hPending, drop_left]
  rcases hBetween.measured with ⟨w, hHere, hAbove, x, hOutcomes, hRead⟩
  have hDiffers := (after_comparing w r array hBetween.apart).2
  rw [← hCommands, hOutcomes, hHere, hAbove] at hDiffers
  simp only [append_cancel_left_eq, cons.injEq, and_true] at hDiffers
  refine ⟨outcome, ⟨hJoined ▸ hCompares, hNothing, ?_, ?_, fun w => ?_⟩, ?_⟩
  · rw [hTracker, hJoined, hLines]
  · rw [Placed, hQubits, hJoined]
    exact hPlaced
  · rw [hCommands]
    exact (after_comparing w r array hBetween.apart).1
  · rw [hDiffers] at hRead
    simpa [effect_bind, hJoined ▸ hCompares, hReady.flushed] using hRead

-- What a node does, with the messages from below.
def corrects (p : Station) (messages : Option (List String)) : Ending :=
  effect (createGhz { p.chain with fromBelow := messages } true) p.start

theorem Joint.corrects_eq (hJoint : p.Joint outcome) (hReady : p.Ready) :
    p.corrects messages = effect (do
      let sent ← correctChain { p.chain with fromBelow := messages } p.qubit outcome
      return (p.qubit, Value.int 0, sent)) p.shared := by
  have hParts : ∀ c, createGhz c true = do
      let x ← pairsOf c
      let outcome ← x.2.elim (return .int 0) (compareQubits x.1)
      flush
      let sent ← correctChain c x.1 outcome
      return (x.1, .int 0, sent) := by
    rintro ⟨_ | _, _ | _, _, _⟩ <;> simp [createGhz, pairsOf, compareQubits]
  have hPairs : effect (pairsOf { p.chain with fromBelow := messages }) p.start = _ := hReady.pairs
  have hCompared := hJoint.compared
  rw [compares] at hCompared
  simp only [corrects, hParts, effect_bind, hPairs, hCompared, hReady.flushed]

/-
  A node returns the qubit that it keeps and no outcome.  The
  commands that it has sent and those that are pending leave this
  qubit at a given bit.
-/
def Agrees (bit : Bool) (p : Station) (ended : Ending) : Prop :=
  ∃ sent, ended.1 = .ok (p.qubit, .int 0, sent) ∧ ended.2.sent = p.shared.sent ∧
    ∀ w : Basis, w.bits p.address = p.bit →
      (w.after (p.commands ++ ended.2.pending)).bits p.address = bit

-- Nodes one above the other, each but the last one with a pair above.
inductive Rising : List Station → Prop
  | last {p : Station} : p.Ready → p.chain.pairsDown.isSome = true → p.chain.pairsUp = none →
      p.above = none → Rising [p]
  | next {p next : Station} {rest : List Station} {k : Nat} {b : Int} {r : Reg} : p.Ready →
      p.chain.pairsDown.isSome = true → p.chain.pairsUp.isSome = true → p.chain.canSendUp = true →
      p.Between next.bit k b r → Rising (next :: rest) → Rising (p :: next :: rest)

-- What the nodes of a line do, each with the messages that the one below it sends.
def climb : Option (List String) → List Station → List Ending
  | _, [] => []
  | messages, p :: rest =>
    p.corrects messages :: climb ((p.corrects messages).1.toOption.map (·.2.2)) rest

-- The message that says whether bits differ.
def word (differs : Bool) : String := toString differs.toInt

theorem correctionFrom_word (differs : Bool) :
    correctionFrom (some [word differs]) = .ok differs.toInt := by
  cases differs <;> decide +kernel

theorem Joint.agrees {sent : List String} {bit : Bool} (hJoint : p.Joint outcome)
    (hDone : p.corrects messages = (.ok (p.qubit, .int 0, sent), t))
    (hSent : t.sent = p.shared.sent)
    (hPending : t.pending = if p.bit ^^ bit then flip p.address else []) :
    Agrees bit p (p.corrects messages) := by
  rw [hDone]
  refine ⟨sent, rfl, hSent, fun w hBit => ?_⟩
  rw [hPending, Basis.after, foldl_append]
  have hKept := (hJoint.kept w).trans hBit
  by_cases hSame : p.bit = bit
  · simpa [Basis.after, hSame] using hKept
  · rw [if_pos (by simpa using hSame)]
    simp only [Basis.after] at hKept
    simp [flip, command, Command.plain, Basis.obey, hKept, ← Bool.eq_not_of_ne hSame]

-- A node that is told whether its bit is wrong flips it if so, and tells the next one.
theorem Rising.told (hRising : Rising (p :: rest)) (bit : Bool) :
    ∃ sent t, p.corrects (some [word (p.bit ^^ bit)]) = (.ok (p.qubit, .int 0, sent), t) ∧
      Agrees bit p (p.corrects (some [word (p.bit ^^ bit)])) ∧
      ∀ next ∈ rest.head?, sent = [word (next.bit ^^ bit)] := by
  cases hRising with
  | last hReady hDown hUp hAlone =>
    rcases Option.isSome_iff_exists.mp hDown with ⟨down, hDown⟩
    have hJoint := hReady.joint hAlone
    have hDone : p.corrects (some [word (p.bit ^^ bit)]) = (.ok (p.qubit, .int 0, []),
        withPending (if p.bit ^^ bit then flip p.address else []) p.shared) := by
      rw [hJoint.corrects_eq hReady]
      cases p.bit ^^ bit <;>
        simp [correctChain, hDown, hUp, effect_bind, correctionFrom_word, hJoint.unchanged,
          effect_flip hJoint.untracked hJoint.placed, hJoint.nothing, -bind_pure_comp]
    exact ⟨[], _, hDone, hJoint.agrees hDone rfl rfl, by simp⟩
  | @next _ next _ k b r hReady hDown hUp hSend hBetween _ =>
    rcases Option.isSome_iff_exists.mp hDown with ⟨down, hDown⟩
    rcases Option.isSome_iff_exists.mp hUp with ⟨up, hUp⟩
    rcases hBetween.joint hReady with ⟨outcome, hJoint, hOutcome⟩
    rcases outcomeValue_withPending hOutcome (if p.bit ^^ bit then flip p.address else []) with
      ⟨t, hSent, hRead⟩
    -- The outcome and what the node was told say together whether the next bit is wrong.
    have hNext : (next.bit ^^ bit) = ((p.bit ^^ bit) ^^ (p.bit ^^ next.bit)) := by
      cases p.bit <;> cases bit <;> cases next.bit <;> rfl
    have hDone : p.corrects (some [word (p.bit ^^ bit)]) =
        (.ok (p.qubit, .int 0, [word (next.bit ^^ bit)]),
          withPending (if p.bit ^^ bit then flip p.address else []) t) := by
      rw [hJoint.corrects_eq hReady, hNext]
      cases hDiffers : p.bit ^^ bit <;>
        simp [hDiffers, hJoint.unchanged] at hRead <;>
        simp [correctChain, hDown, hUp, hSend, effect_bind, correctionFrom_word,
          effect_flip hJoint.untracked hJoint.placed, hJoint.nothing, hRead, -bind_pure_comp] <;>
        cases p.bit ^^ next.bit <;> rfl
    exact ⟨_, _, hDone, hJoint.agrees hDone hSent rfl, by simp⟩

theorem Rising.agrees (hRising : Rising (p :: rest)) (bit : Bool) :
    Forall₂ (Agrees bit) (p :: rest) (climb (some [word (p.bit ^^ bit)]) (p :: rest)) := by
  induction rest generalizing p with
  | nil =>
    rcases hRising.told bit with ⟨_, _, _, hAgrees, _⟩
    exact .cons hAgrees .nil
  | cons next rest ih =>
    rcases hRising.told bit with ⟨sent, _, hDone, hAgrees, hSent⟩
    cases hRising with
    | next _ _ _ _ _ hAbove =>
      refine .cons hAgrees ?_
      rw [hDone]
      exact hSent next rfl ▸ ih hAbove

-- A pair that a node asked for, or one that it takes part in.
def pairWith (asked : Bool) : NewResponse :=
  .former (.keep { Node.keptIn 0 with
    direction := .int (if asked then 0 else 1)
    purpose := .int (if asked then 1 else 0)
    remoteNode := .int (if asked then 2 else 1) })

-- A session whose node measures one.
def linked (arrivals : List NewResponse) : Session :=
  { ready [1] with
    sockets := #[⟨"bob", 0, 0, 0, true, some 1⟩, ⟨"charlie", 1, 0, 0, true, some 2⟩]
    backend := (ready [1]).backend.map fun n => { n with hasStack := true, arrivals := arrivals } }

def member (c : Chain) (asked : List Bool) (above : Option Nat) (bit : Bool) : Station :=
  ⟨c, linked (asked.map pairWith), 0, above, 0, bit⟩

def middle : Station := member ⟨some 0, some 1, none, true⟩ [false, true] (some 1) true
end Station

end QuantumNode.Session
