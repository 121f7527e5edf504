import QuantumNode.Session.Control

/-
  Requests for entangled pairs, where their parameters and results stand in arrays, and the commands
  that ask for pairs and wait for them.
-/

namespace QuantumNode

inductive PairKind
  | keep
  | measure
  | prepare
  deriving DecidableEq

namespace PairKind

def all : List PairKind := [keep, measure, prepare]

def name : PairKind → String
  | keep => "K"
  | measure => "M"
  | prepare => "R"

def value : PairKind → Int
  | keep => 0
  | measure => 1
  | prepare => 2

end PairKind

inductive PairRole
  | create
  | receive
  deriving DecidableEq

structure PairRequest where
  remoteNode : Int
  socket : Int
  number : Int
  sequential : Bool
  timeUnit : TimeUnit
  maxTime : Int
  expectPhiPlus : Bool
  minFidelity : Option Int
  maxTries : Option Int
  randomLocal : Option Int
  randomRemote : Option Int
  rotationsLocal : List Int
  rotationsRemote : List Int
  deriving DecidableEq

namespace PairRequest

def unrotated : List Int := [0, 0, 0]

def one (remoteNode socket : Int) : PairRequest where
  remoteNode := remoteNode
  socket := socket
  number := 1
  sequential := false
  timeUnit := .microSeconds
  maxTime := 0
  expectPhiPlus := true
  minFidelity := none
  maxTries := none
  randomLocal := none
  randomRemote := none
  rotationsLocal := unrotated
  rotationsRemote := unrotated

def argumentCount : Nat := 20

def putFrom : Nat → List Int → List (Option Int) → List (Option Int)
  | _, [], entries => entries
  | place, v :: rest, entries => putFrom (place + 1) rest (entries.set place (some v))

-- Put values at places, if they are given.
def putIf (given : Bool) (place : Nat) (values : List Int)
    (entries : List (Option Int)) : List (Option Int) :=
  if given then putFrom place values entries else entries

def arguments (kind : PairKind) (r : PairRequest) : List (Option Int) :=
  let entries := putFrom 0 [kind.value, r.number] (List.replicate argumentCount none)
  let entries := putIf (r.maxTime ≠ 0) 5 [r.timeUnit.value, r.maxTime] entries
  if kind = .keep then entries
  else
    let entries := putIf (r.rotationsLocal ≠ unrotated) 14 r.rotationsLocal entries
    let entries := putIf (r.rotationsRemote ≠ unrotated) 17 r.rotationsRemote entries
    let entries := putFrom 2 r.randomLocal.toList entries
    putFrom 3 r.randomRemote.toList entries

end PairRequest

namespace Session

def resultSize : Int := 10

def keepQubit : Int := 2
def keepRemote : Int := 6
def keepDuration : Int := 7
def keepBell : Int := 9

def measureOutcome : Int := 2
def measureRemote : Int := 7
def measureDuration : Int := 8
def measureBell : Int := 9

def resultStarts (number : Int) : List Int :=
  (List.range number.toNat).map fun i => Int.ofNat i * resultSize

-- Results have to fill their array.
def checkResults (number : Int) (a : HostArray) : Checked Unit :=
  demand (a.length = number * resultSize) .unmet

def keepResults (r : PairRequest) (a : HostArray) : SessionM (List KeepResult) := do
  checkResults r.number a
  (resultStarts r.number).mapM fun start => do
    let entry (place : Int) : SessionM Nat := entryFuture a (.int (start + place))
    return ⟨← entry keepQubit, ← entry keepRemote, ← entry keepDuration, ← entry keepBell⟩

def measureResults (r : PairRequest) (a : HostArray)
    (role : PairRole) : SessionM (List MeasureResult) := do
  checkResults r.number a
  (resultStarts r.number).mapM fun start => do
    let entry (place : Int) : SessionM Nat := entryFuture a (.int (start + place))
    return {
      outcome := ← entry measureOutcome
      localBasis := r.rotationsLocal
      remoteBasis := r.rotationsRemote
      corrected := r.expectPhiPlus && role = .receive
      remoteNode := ← entry measureRemote
      duration := ← entry measureDuration
      bell := ← entry measureBell }

def bellState (bell : Nat) : SessionM BellState := do
  bellStateOf (← valueOf bell)

-- The outcome of a measured pair, corrected if it is to be.
def outcomeOf (r : MeasureResult) : SessionM Int := do
  let query : OutcomeQuery := ⟨r.localBasis, r.remoteBasis, r.corrected⟩
  let basis ← if r.corrected then pure (some (← query.basis)) else pure none
  let outcome ← valueOf r.outcome
  let bell ← if basis.isSome && (outcome = some 0 || outcome = some 1) then valueOf r.bell
    else pure none
  correctedOutcome query outcome bell

end Session

end QuantumNode

namespace QuantumNode.Session

---- Waiting

def repeatCommand (times : Operand) (op : Op) (operands : List Operand) : SessionM Unit :=
  loopBody (m := SessionM) (.upTo times) none fun _ => emit op operands

-- Wait for the result of a pair whose number is in a register. Where it starts and stops is added
-- up in loops.
def waitForPair (results : HostArray) (pair : Reg) : SessionM Unit := do
  let start ← takeRegister
  let next ← takeRegister
  let stop ← takeRegister
  for r in [start, next, stop] do
    emit .set [.reg r, .int 0]
  repeatCommand (.int resultSize) .add [.reg start, .reg start, .reg pair]
  emit .add [.reg next, .reg pair, .int 1]
  repeatCommand (.int resultSize) .add [.reg stop, .reg stop, .reg next]
  emit .waitAll [.slice results.address (.reg start) (.reg stop)]
  releaseAll [start, next, stop]

def rawBellState (results : HostArray) (index : Reg) (target : Reg) : SessionM Nat := do
  let place ← takeRegister
  emit .set [.reg place, .int keepBell]
  repeatCommand (.reg index) .add [.reg place, .reg place, .int resultSize]
  add (← loadItems target (← entryFuture results (.reg place)))
  release place
  registerFuture target

def halfTurn (op : Op) (qubit : Reg) : Item :=
  command op [.reg qubit, .int 16, .int 4]

def correctPair (bell : Nat) (qubit : Reg) : SessionM Unit := do
  let correct (state : BellState) (gates : List Item) : SessionM Unit :=
    ifBlock (m := SessionM) .beq (.future bell) (.int state.value) (add gates)
  correct .phiMinus [halfTurn .rotZ qubit]
  correct .psiPlus [halfTurn .rotX qubit]
  correct .psiMinus [halfTurn .rotX qubit, halfTurn .rotZ qubit]

def correctPairs (qubits results : HostArray) (request : PairRequest) : SessionM Unit := do
  let qubit ← takeRegister
  let bell ← takeRegister
  let counter ← freeRegister
  loopBody (m := SessionM) (.upTo (.int request.number)) (some counter) fun index => do
    add (← loadItems qubit (← entryFuture qubits (.future index)))
    let state ← rawBellState results counter bell
    emit .set [.reg qubit, .int 0]
    correctPair state qubit
  releaseAll [qubit, bell]

def correctReceived (results : HostArray) (request : PairRequest) (role : PairRole)
    (pair qubit bell : Reg) : SessionM Unit := do
  if request.expectPhiPlus && role = .receive then
    let state ← rawBellState results pair bell
    emit .set [.reg qubit, .int 0]
    correctPair state qubit

variable (role : PairRole) (request : PairRequest)

-- Wait for pairs one after the other. Each but the last is moved away from the place where the next
-- one arrives.
def moveToStorage (results : HostArray) (role : PairRole) : SessionM Unit := do
  let counter ← takeRegister
  let qubit ← takeRegister
  let bell ← takeRegister
  loopBody (m := SessionM) (.upTo (.int request.number)) (some counter) fun index => do
    waitForPair results counter
    correctReceived results request role counter qubit bell
    ifBlock (m := SessionM) .bne (.future index) (.int (request.number - 1)) do
      let target ← takeRegister
      let source ← takeRegister
      add [command .sub [.reg target, .int (request.number - 1), .reg counter],
        command .set [.reg source, .int 0], command .mov [.reg source, .reg target],
        command .qfree [.reg source]]
      release target
      release source
  releaseAll [counter, qubit, bell]

variable {m : Type → Type} [Monad m] [MonadLiftT SessionM m]

def handOver (qubits : HostArray) (request : PairRequest) (results : HostArray) (role : PairRole)
    (routine : Nat → Nat → m Unit) : m Unit := do
  let counter ← takeRegister
  let qubit ← takeRegister
  let bell ← takeRegister
  loopBody (.upTo (.int request.number)) (some counter) fun _ => do
    let arriving : SessionM (Nat × Nat) := do
      waitForPair results counter
      correctReceived results request role counter qubit bell
      let q ← futureQubit (← entryFuture qubits (.reg counter))
      let pair ← registerFuture counter
      return (q, pair)
    let (q, pair) ← arriving
    routine q pair
  releaseAll [counter, qubit, bell]

---- Requests

def checkSequential (hasRoutine : Bool) : Checked Unit :=
  demand (!(request.sequential && 1 < request.number && !hasRoutine)) (.session .needsRoutine)

-- Pairs that are kept together have to fit.
def checkFit (limit : Int) : Checked Unit :=
  demand (!(!request.sequential && limit < request.number))
    (.session (.tooManyPairs request.number limit))

def checkRequest (kind : PairKind) (request : PairRequest) (hasRoutine : Bool) : SessionM Unit := do
  checkSequential request hasRoutine
  if kind = .keep then checkFit request (← get).hardware.qubits

def resultsArray (number : Int) : SessionM HostArray :=
  arrayOf (resultSize * number)

def pairInfos (number : Int) (results : HostArray) : SessionM (List PairInfo) :=
  (resultStarts number).mapM fun start => do
    return .known (← sliceFutures results [.int start, .int (start + resultSize)])

-- The qubits for pairs on hardware with one place for entanglement: all there if they come one
-- after the other, otherwise the first one gets the highest address.
def storageQubits (sequential : Bool) (number : Nat) : Nat → List PairInfo → SessionM (List Nat)
  | _, [] => return []
  | i, info :: rest => do
    let q ← if sequential then createQubit false info (some 0) else do
        let address : Int := Int.ofNat number - 1 - Int.ofNat i
        if address ≠ 0 then
          if ← isTaken address (← get).allocation.qubits then throw .unmet
        createQubit (address ≠ 0) info (some address)
    return q :: (← storageQubits sequential number (i + 1) rest)

def pairQubits (results : HostArray) : SessionM (List Nat) := do
  let infos ← pairInfos request.number results
  if (← get).hardware.nv then
    freeUp 0
    storageQubits request.sequential infos.length 0 infos
  else
    let address ← if request.sequential then pure (some (← freeAddress)) else pure none
    infos.mapM fun info => createQubit false info address

def addressesOf (qubits : List Nat) : SessionM (List Value) :=
  qubits.mapM fun q => do return addressValue (← qubitCell q).address

def pairCommand (op : Op) (request : PairRequest) (operands : List Operand) : Item :=
  .command ⟨op, [request.remoteNode, request.socket], operands, none⟩

def waitForAll (results : HostArray) (waiting : Bool) : SessionM Unit :=
  add (if waiting then
      [command .waitAll [.slice results.address (.int 0) (.int results.length)]]
    else [])

-- No qubits are needed where a pair is measured at once.
def noQubits : Operand := .reg ⟨.c, 0⟩

def argumentsArray (kind : PairKind) (request : PairRequest) : SessionM HostArray :=
  arrayWith (request.arguments kind)

def askForPairs (kind : PairKind) (request : PairRequest) (qubits : Operand) (results : HostArray)
    (waiting : Bool) : SessionM Unit := do
  let arguments ← argumentsArray kind request
  addOne (pairCommand .createEpr request [qubits, .int arguments.address, .int results.address])
  waitForAll results waiting

def acceptPairs (qubits : Operand) (results : HostArray) (waiting : Bool) : SessionM Unit := do
  addOne (pairCommand .recvEpr request [qubits, .int results.address])
  waitForAll results waiting

-- Take part in pairs that are kept, and correct them if all are waited for.
def acceptKept (qubits results : HostArray) (waiting : Bool) : SessionM Unit := do
  acceptPairs request (.int qubits.address) results waiting
  if waiting && request.expectPhiPlus then correctPairs qubits results request

-- Pairs that are kept: their qubits and the array of results. A routine gets each pair as it comes.
def requestKept (clear : Bool)
    (routine : Option (Nat → Nat → m Unit)) : m (List Nat × HostArray) := do
  let asking : SessionM (List Nat × HostArray × HostArray) := do
    checkRequest .keep request routine.isSome
    let results ← resultsArray request.number
    let qubits ← pairQubits request results
    let single := (← get).hardware.communication = 1
    let addresses ← if single then pure (qubits.map fun _ => Value.int 0) else addressesOf qubits
    let addressArray ← newArray (.int 1) (some addresses)
    let waiting := !(routine.isSome || single)
    if clear then undefine results
    match role with
    | .create => askForPairs .keep request (.int addressArray.address) results waiting
    | .receive => acceptKept request addressArray results waiting
    if routine.isNone && single then moveToStorage request results role
    return (qubits, results, addressArray)
  let (qubits, results, addressArray) ← asking
  match routine with
  | some f => handOver addressArray request results role f
  | none => pure ()
  return (qubits, results)

def measurePairs : SessionM (List MeasureResult) := do
  checkRequest .measure request false
  let results ← resultsArray request.number
  match role with
  | .create => askForPairs .measure request noQubits results true
  | .receive => acceptPairs request noQubits results true
  measureResults request results role

def prepareRemotely : SessionM (List MeasureResult) := do
  checkRequest .prepare request false
  let results ← resultsArray request.number
  askForPairs .prepare request noQubits results true
  measureResults request results .create

def receivePrepared : SessionM (List Nat × List KeepResult) := do
  checkRequest .prepare request false
  let results ← resultsArray request.number
  let qubits ← pairQubits request results
  let addressArray ← newArray (.int 1) (some (← addressesOf qubits))
  acceptKept request addressArray results true
  return (qubits, ← keepResults request results)

---- Fidelity

def roundsOf : Checked Operand :=
  match request.maxTries with
  | some n => .ok (.int n)
  | none => .error .unmet

-- The constraint that the last of some pairs did not take too long.
def timeConstraint (durations : List Nat) (minFidelity : Int) : Checked Constraint := do
  match durations.getLast? with
  | none => throw .noIndex
  | some d => return .atMost (.future d) (.int (← CreateRequest.maxTimeFor minFidelity))

def dropRound (results : HostArray) (qubits : List Nat) : SessionM Unit := do
  undefine results
  if !request.sequential then
    for q in qubits do
      gate .qfree (← qubitCell q).address

-- Pairs that are kept, repeated until a fidelity is reached if one is wanted.
def keepPairs [MonadFinally m]
    (routine : Option (Nat → Nat → m Unit)) : m (List Nat × List KeepResult) := do
  match request.minFidelity with
  | none =>
    let (qubits, results) ← requestKept role request false routine
    return (qubits, ← keepResults request results)
  | some fidelity =>
    let rounds ← (roundsOf request : SessionM Operand)
    untilBlock rounds fun _ => do
      let (qubits, results) ← requestKept role request true routine
      let ending : SessionM (List KeepResult × Constraint) := do
        let kept ← keepResults request results
        return (kept, ← timeConstraint (kept.map KeepResult.duration) fidelity)
      let (kept, constraint) ← ending
      return ((qubits, kept), some constraint, liftM (dropRound request results qubits))

-- Remote preparation, repeated until a fidelity is reached if one is wanted.
def preparePairs : SessionM (List MeasureResult) := do
  match request.minFidelity with
  | none => prepareRemotely request
  | some fidelity =>
    untilBlock (m := SessionM) (← roundsOf request) fun _ => do
      let results ← prepareRemotely request
      let constraint ← timeConstraint (results.map MeasureResult.duration) fidelity
      return (results, some constraint, pure ())

-- Remotely prepared pairs, repeated until a fidelity is reached if one is wanted.
def receivePairs : SessionM (List Nat × List KeepResult) := do
  match request.minFidelity with
  | none => receivePrepared request
  | some fidelity =>
    untilBlock (m := SessionM) (← roundsOf request) fun _ => do
      let (qubits, kept) ← receivePrepared request
      let constraint ← timeConstraint (kept.map KeepResult.duration) fidelity
      return ((qubits, kept), some constraint, pure ())

structure OpenPairs where
  before : List Item
  counter : Reg
  results : HostArray
  qubit : Nat

-- Ask for pairs, or take part in them, before a block over them.
def openPairs : SessionM OpenPairs := do
  checkFit request (← get).hardware.qubits
  let results ← resultsArray request.number
  let qubits ← pairQubits request results
  let addressArray ← newArray (.int 1) (some (← addressesOf qubits))
  match role with
  | .create => askForPairs .keep request (.int addressArray.address) results false
  | .receive => acceptKept request addressArray results false
  let before ← takeAll
  let counter ← takeRegister
  let qubit ← futureQubit (← entryFuture addressArray (.reg counter))
  return ⟨before, counter, results, qubit⟩

def closePairs (o : OpenPairs) : SessionM Unit := do
  let body ← takeAll
  waitForPair o.results o.counter
  let waiting ← takeAll
  addLoop o.before (waiting ++ body) (.upTo (.int request.number)) o.counter
  release o.counter

-- A block over pairs, with the qubit and the register that counts them.
def pairsBlock [MonadFinally m] (body : Nat → Reg → m Unit) : m Unit := do
  let opening : SessionM OpenPairs :=
    try openPairs role request catch _ => throw (.unexplained .unassigned)
  let o ← opening
  try body o.qubit o.counter finally (closePairs request o : SessionM Unit)

end QuantumNode.Session
