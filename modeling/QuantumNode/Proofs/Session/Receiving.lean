import QuantumNode.Proofs.Session.Adding

/-
  The code that a session adds to receive pairs: a loop over the pairs, with code in its body that
  corrects each.
-/

open List

namespace QuantumNode
variable {qubits : HostArray} {id : Nat}
  {routine : Option (Nat → Nat → SessionM Unit)} {index r : Reg}

open Node Draft Session Flow
variable {results : HostArray} {number : Int} {answer : List Nat × List KeepResult}
  {request : PairRequest} {unseen : Prop} {bell counter qubit : Reg} {α : Type} {a : Unit}

---- Code

-- The gates that bring a Bell state into the first one.
def BellState.gates : BellState → List Op
  | phiPlus => []
  | phiMinus => [.rotZ]
  | psiPlus => [.rotX]
  | psiMinus => [.rotX, .rotZ]

-- Gates on the qubit in a register, if another register holds a Bell state.
def gateItems (state : BellState) (bell qubit : Reg) (exit : String) : List Item :=
  command .bne [.reg bell, .int state.value, .label exit] ::
    (state.gates.map (halfTurn · qubit) ++ [.label exit none])

-- The place of a Bell state among the results is added up in a loop.
def bellItems (results : Int) (index place round bell : Reg) (labels : LoopLabels) : List Item :=
  command .set [.reg place, .int keepBell] :: (loopItems labels round (.upTo (.reg index))
        [command .add [.reg place, .reg place, .int resultSize]] ++
      [command .load [.reg bell, .entry results (.reg place)]])

-- The names that the code for the correction of a pair uses.
structure Correction where
  results : Int
  index : Reg
  place : Reg
  round : Reg
  bell : Reg
  qubit : Reg
  labels : LoopLabels
  phiMinusExit : String
  psiPlusExit : String
  psiMinusExit : String

namespace Correction
variable (c : Correction)

def choice : List Item :=
  gateItems .phiMinus c.bell c.qubit c.phiMinusExit ++
    (gateItems .psiPlus c.bell c.qubit c.psiPlusExit ++
      gateItems .psiMinus c.bell c.qubit c.psiMinusExit)

def code : List Item :=
  bellItems c.results c.index c.place c.round c.bell c.labels ++
    (command .set [.reg c.qubit, .int 0] :: c.choice)

def scratch : List Reg := [c.place, c.round, c.bell, c.qubit]

def Apart : Prop := (c.index :: c.scratch).Nodup

end Correction

namespace Session
variable {s t u : Session}

---- Parts

theorem aside_writes (hMute : isMute op os = true) (hWrites : outputs op os = [r])
    (hOther : r ∉ kept) : Aside kept unseen [command op os] := by
  refine .mute hMute fun q hq hOutput => hOther ?_
  have hSame : q ∈ outputs op os := hOutput
  rw [hWrites] at hSame
  exact mem_singleton.mp hSame ▸ hq

theorem adds_takeThree {x : Reg → Reg → Reg → SessionM α} {v : α}
    (hEffect : effect (do
        let a ← takeRegister
        let b ← takeRegister
        let c ← takeRegister
        x a b c) s = (.ok v, t)) :
    ∃ a b c u, Adds [] s u ∧ [a, b, c].Nodup ∧ [a, b, c] ⊆ u.allocation.registers ∧
      (∀ r ∈ [a, b, c], r ∈ Reg.ofBank .r ∧ r ∉ s.allocation.registers) ∧
      effect (x a b c) u = (.ok v, t) := by
  rcases adds_takeRegister hEffect with ⟨a, _, hAdds₁, hStandardA, hFreshA, hUsedA, hAfter₁⟩
  rcases adds_takeRegister hAfter₁ with ⟨b, _, hAdds₂, hStandardB, hFreshB, hUsedB, hAfter₂⟩
  rcases adds_takeRegister hAfter₂ with ⟨c, s₃, hAdds₃, hStandardC, hFreshC, hUsedC, hRest⟩
  have hNewB : b ∉ s.allocation.registers := fun hOld => hFreshB (hAdds₁.registers hOld)
  have hNewC : c ∉ s.allocation.registers := fun hOld =>
    hFreshC (hAdds₂.registers (hAdds₁.registers hOld))
  have hAB : a ≠ b := fun hEqual => hFreshB (hEqual ▸ hUsedA)
  have hAC : a ≠ c := fun hEqual => hFreshC (hEqual ▸ hAdds₂.registers hUsedA)
  have hBC : b ≠ c := fun hEqual => hFreshC (hEqual ▸ hUsedB)
  refine ⟨a, b, c, s₃, (hAdds₁.trans hAdds₂).trans hAdds₃, by simp [hAB, hAC, hBC], ?_, ?_, hRest⟩
  · simp [hAdds₃.registers (hAdds₂.registers hUsedA), hAdds₃.registers hUsedB, hUsedC]
  · simp [hStandardA, hStandardB, hStandardC, hFreshA, hNewB, hNewC]

theorem adds_waitForPair {pair : Reg} (hEffect : effect (waitForPair results pair) s = (.ok a, t)) :
    ∃ code, Adds code s t ∧ Aside s.allocation.registers True code := by
  rcases adds_takeThree hEffect with ⟨start, next, stop, s₃, hTaken, _, _, hNew, hAfter₃⟩
  have hStartNew := (hNew start (by simp)).2
  have hNextNew := (hNew next (by simp)).2
  have hStopNew := (hNew stop (by simp)).2
  rcases of_binds_ok hAfter₃ with ⟨_, s₄, hSets, _, _, hFirst, hAfter₅⟩
  have hCleared : Adds ([start, next, stop].map fun r => command .set [.reg r, .int 0]) s₃ s₄ := by
    refine effect_forIn_ok
      (fun done u => Adds (done.map fun r => command .set [.reg r, .int 0]) s₃ u) ?_ (.refl s₃)
      hSets
    rintro done r v w _ hBefore hStep
    rcases of_bind_ok hStep with ⟨_, _, hSet, ⟨⟩⟩
    refine ⟨rfl, ?_⟩
    rw [map_append]
    exact hBefore.trans (adds_emit hSet)
  rcases adds_repeat hFirst with ⟨_, r, hFresh, hAdds₅⟩
  rcases of_binds_ok hAfter₅ with ⟨_, _, hSum, _, _, hSecond, hAfter₇⟩
  rcases adds_repeat hSecond with ⟨_, _, hFresh', hAdds₇⟩
  rcases of_bind_ok hAfter₇ with ⟨_, _, hWait, hRelease⟩
  have hBefore₄ := hTaken.trans hCleared
  have hBefore₆ := (hBefore₄.trans hAdds₅).trans (adds_emit hSum)
  have hWhole := (hBefore₆.trans hAdds₇).trans (adds_emit hWait)
  rw [(releaseAll_ok hRelease).1]
  refine ⟨_, hWhole.releasedAll fun r hr => (hNew r hr).2, ?_⟩
  refine .append (.append (.append (.append (.append .nil ?_) ?_) ?_) ?_) ?_
  · exact .append (aside_writes rfl rfl hStartNew)
      (.append (aside_writes rfl rfl hNextNew) (aside_writes rfl rfl hStopNew))
  · exact .loop (aside_writes rfl rfl hStartNew) fun hUsed => hFresh (hBefore₄.registers hUsed)
  · exact aside_writes rfl rfl hNextNew
  · exact .loop (aside_writes rfl rfl hStopNew) fun hUsed => hFresh' (hBefore₆.registers hUsed)
  · exact .mute rfl fun _ _ => not_mem_nil

theorem adds_rawBellState (hEffect : effect (rawBellState results index bell) s = (.ok state, t)) :
    ∃ place round labels, place ∉ s.allocation.registers ∧ round ∉ s.allocation.registers ∧
      place ≠ round ∧ t.place? state = some (.register (some bell)) ∧
      Adds (bellItems results.address index place round bell labels) s t := by
  rcases adds_takeRegister hEffect with ⟨place, s₁, hAdds₁, _, hPlaceFresh, hPlaceUsed, hAfter₁⟩
  rcases of_binds_ok hAfter₁ with ⟨_, _, hSet, _, _, hLoop, hAfter₃⟩
  have hAdds₂ := adds_emit hSet
  rcases adds_repeat hLoop with ⟨labels, round, hRoundFresh, hAdds₃⟩
  rcases of_bind_ok hAfter₃ with ⟨entry, s₄, hEntry, hAfter₄⟩
  rcases adds_newFuture hEntry with ⟨hAdds₄, hEntryPlace⟩
  rcases of_bind_ok hAfter₄ with ⟨items, s₅, hLoad, hAfter₅⟩
  rcases loadItems_ok hEntryPlace (.inl rfl) hLoad with ⟨rfl, rfl⟩
  rcases of_binds_ok hAfter₅ with ⟨_, _, hAdd, _, _, hRelease, hState⟩
  have hBefore := hAdds₁.trans hAdds₂
  have hWhole := (((hBefore.trans hAdds₃).trans hAdds₄).trans (adds_add hAdd)).released hPlaceFresh
  rw [← release_ok hRelease] at hWhole
  rcases adds_newFuture hState with ⟨hAdds₇, hStatePlace⟩
  refine ⟨place, round, labels, hPlaceFresh, fun hUsed => hRoundFresh (hBefore.registers hUsed),
    ?_, hStatePlace, ?_⟩
  · rintro rfl
    exact hRoundFresh (hAdds₂.registers hPlaceUsed)
  · simpa [bellItems, command, Command.plain, Item.bare] using hWhole.trans hAdds₇

theorem adds_gates (state : BellState) (qubit : Reg) (hSome : state.gates ≠ [])
    (hPlace : s.place? id = some (.register (some bell)))
    (hEffect : effect (ifBlock (m := SessionM) .beq (.future id) (.int state.value)
        (add (state.gates.map (halfTurn · qubit)))) s = (.ok a, t)) :
    ∃ exit, Adds (gateItems state bell qubit exit) s t := by
  have hBody :
      ∀ b u, effect (add (state.gates.map (halfTurn · qubit))) (guardedFrom s) = (.ok b, u) →
        ∃ code, code ≠ [] ∧ Adds code (guardedFrom s) u ∧
          code = state.gates.map (halfTurn · qubit) := by
    intro b u hAdd
    have hAdds := adds_add hAdd
    rw [map_map] at hAdds
    exact ⟨_, by simpa using hSome, hAdds, rfl⟩
  rcases adds_condition rfl (by decide) hPlace hBody hEffect with ⟨exit, code, hAdds, rfl⟩
  exact ⟨exit, hAdds⟩

theorem adds_correctPair (hPlace : s.place? id = some (.register (some bell)))
    (hEffect : effect (correctPair id qubit) s = (.ok a, t)) :
    ∃ phiMinus psiPlus psiMinus, Adds (gateItems .phiMinus bell qubit phiMinus ++
        (gateItems .psiPlus bell qubit psiPlus ++ gateItems .psiMinus bell qubit psiMinus)) s t := by
  rcases of_binds_ok hEffect with ⟨_, _, hFirst, _, _, hSecond, hThird⟩
  rcases adds_gates .phiMinus qubit (by decide) hPlace hFirst with ⟨phiMinus, hAdds₁⟩
  have hPlace₁ := hAdds₁.places _ _ hPlace (by rintro ⟨⟩)
  rcases adds_gates .psiPlus qubit (by decide) hPlace₁ hSecond with ⟨psiPlus, hAdds₂⟩
  have hPlace₂ := hAdds₂.places _ _ hPlace₁ (by rintro ⟨⟩)
  rcases adds_gates .psiMinus qubit (by decide) hPlace₂ hThird with ⟨psiMinus, hAdds₃⟩
  exact ⟨phiMinus, psiPlus, psiMinus, hAdds₁.trans (hAdds₂.trans hAdds₃)⟩

theorem adds_correction (hApart : [index, qubit, bell].Nodup)
    (hUsed : [index, qubit, bell] ⊆ s.allocation.registers)
    (hEffect : effect (do
        let state ← rawBellState results index bell
        emit .set [.reg qubit, .int 0]
        correctPair state qubit) s = (.ok a, t)) :
    ∃ c : Correction, c.results = results.address ∧ c.index = index ∧ c.Apart ∧
      Adds c.code s t := by
  rcases of_binds_ok hEffect with ⟨state, s₁, hRaw, _, s₂, hSet, hCorrect⟩
  rcases adds_rawBellState hRaw with ⟨place, round, labels, hPlace, hRound, hDiffer, hState, hBell⟩
  have hAims := adds_emit hSet
  rcases adds_correctPair (hAims.places _ _ hState (by rintro ⟨⟩)) hCorrect with
    ⟨phiMinus, psiPlus, psiMinus, hChoice⟩
  refine ⟨⟨results.address, index, place, round, bell, qubit, labels, phiMinus, psiPlus,
    psiMinus⟩, rfl, rfl, ?_, hBell.trans (hAims.trans hChoice)⟩
  simp only [Correction.Apart, Correction.scratch]
  grind

---- Loops over pairs

-- The parts of a loop over pairs, each of which is corrected.
structure Passage where
  correction : Correction
  labels : LoopLabels
  before : List Item
  behind : List Item

def Passage.items (p : Passage) (number : Int) : List Item :=
  loopItems p.labels p.correction.index (.upTo (.int number))
    (p.before ++ (p.correction.code ++ p.behind))

-- What stands beside a correction does not change the number of the pair.
structure Passage.Sound (p : Passage) (unseen : Prop) : Prop where
  apart : p.correction.Apart
  before : Aside [p.correction.index] unseen p.before
  behind : Aside [p.correction.index] unseen p.behind

-- The code of a round in which the pair in a register is corrected.
def CorrectsIn (results : Int) (counter : Reg) (unseen : Prop) (code : List Item) : Prop :=
  ∃ (c : Correction) (before behind : List Item), code = before ++ (c.code ++ behind) ∧
    c.results = results ∧ c.index = counter ∧ c.Apart ∧
    Aside [counter] unseen before ∧ Aside [counter] unseen behind

theorem ne_nil_of_correctsIn {results : Int} {code : List Item}
    (hCode : CorrectsIn results counter unseen code) : code ≠ [] := by
  rcases hCode with ⟨c, _, _, rfl, _⟩
  simp [Correction.code]

-- A loop over a number of pairs is added in which each is corrected from its result.
def AddsPassage (number results : Int) (unseen : Prop) (s t : Session) : Prop :=
  ∃ p : Passage, Adds (p.items number) s t ∧ p.Sound unseen ∧ p.correction.results = results

theorem passage_of_loop {results : Int} {labels : LoopLabels} {code : List Item}
    (hAdds : Adds (loopItems labels counter (.upTo (.int number)) code) s t)
    (hCode : CorrectsIn results counter unseen code) : AddsPassage number results unseen s t := by
  rcases hCode with ⟨c, before, behind, rfl, hResults, rfl, hApart, hBefore, hBehind⟩
  exact ⟨⟨c, labels, before, behind⟩, hAdds, ⟨hApart, hBefore, hBehind⟩, hResults⟩

theorem adds_correctPairs (hEffect : effect (correctPairs qubits results request) s = (.ok a, t)) :
    AddsPassage request.number results.address True s t := by
  rcases adds_takeRegister hEffect with ⟨qubit, s₁, hAdds₁, _, hQubitFresh, hQubitUsed, hAfter₁⟩
  rcases adds_takeRegister hAfter₁ with ⟨bell, s₂, hAdds₂, _, hBellFresh, hBellUsed, hAfter₂⟩
  rcases of_bind_ok hAfter₂ with ⟨counter, s₃, hCounter, hAfter₃⟩
  rcases freeRegister_ok hCounter with ⟨hStandard, hCounterFresh, rfl⟩
  rcases of_bind_ok hAfter₃ with ⟨_, s₄, hLoop, hRelease⟩
  have hWanted : ∀ q ∈ some counter, q ∈ Reg.ofBank .r ∧ q ∉ s₃.allocation.registers := by
    rintro q ⟨⟩
    exact ⟨hStandard, hCounterFresh⟩
  rcases loopBody_parts hWanted hLoop with ⟨r, _, u, _, v, _, _, hSame, hBody, hClose, hGiven⟩
  cases hSame counter rfl
  -- in the body, the address of the qubit is loaded first
  rcases of_bind_ok hBody with ⟨entry, u₁, hEntry, hAfterEntry⟩
  rcases adds_newFuture hEntry with ⟨hAdds₄, hEntryPlace⟩
  have hIndex : (opened counter s₃).place? s₃.futures.size = some (.register (some counter)) :=
    place?_withFuture _ _
  rcases of_bind_ok hAfterEntry with ⟨items, u₂, hLoad, hAfterLoad⟩
  rcases loadItems_ok hEntryPlace (.inr ⟨_, rfl, hAdds₄.places _ _ hIndex (by rintro ⟨⟩)⟩) hLoad
    with ⟨rfl, rfl⟩
  rcases of_bind_ok hAfterLoad with ⟨_, u₃, hAdd, hCorrection⟩
  have hLoaded := hAdds₄.trans (adds_add hAdd)
  have hQubitUsed' := hAdds₂.registers hQubitUsed
  have hApart : [counter, qubit, bell].Nodup := by
    have hCounterQubit : counter ≠ qubit := fun hEqual => hCounterFresh (hEqual ▸ hQubitUsed')
    have hCounterBell : counter ≠ bell := fun hEqual => hCounterFresh (hEqual ▸ hBellUsed)
    have hQubitBell : qubit ≠ bell := fun hEqual => hBellFresh (hEqual ▸ hQubitUsed)
    simp [hCounterQubit, hCounterBell, hQubitBell]
  have hUsed : [counter, qubit, bell] ⊆ u₃.allocation.registers := by
    have hOpened : [counter, qubit, bell] ⊆ (opened counter s₃).allocation.registers := by
      simp [opened, withFuture, withRegisters, hQubitUsed', hBellUsed]
    exact fun r hr => hLoaded.registers (hOpened hr)
  rcases adds_correction hApart hUsed hCorrection with ⟨c, hResults, rfl, hDiffer, hAdds₅⟩
  have hNew : ∀ r ∈ [qubit, bell], r ∉ s.allocation.registers := by
    have hBellNew : bell ∉ s.allocation.registers := fun hOld => hBellFresh (hAdds₁.registers hOld)
    simp [hQubitFresh, hBellNew]
  have hRound : CorrectsIn results.address c.index True
      ([command .load [.reg qubit, .entry qubits.address (.reg c.index)]] ++ c.code) := by
    refine ⟨c, _, [], by rw [append_nil], hResults, rfl, hDiffer, ?_, .nil⟩
    refine aside_writes rfl rfl fun hEqual => ?_
    rw [mem_singleton] at hEqual
    simp [hEqual] at hApart
  rcases adds_loop hCounterFresh (ne_nil_of_correctsIn hRound) (hLoaded.trans hAdds₅) hClose hGiven
    with ⟨labels, hAdds₆⟩
  rw [(releaseAll_ok hRelease).1]
  exact passage_of_loop (((hAdds₁.trans hAdds₂).trans hAdds₆).releasedAll hNew) hRound

theorem adds_arrival (hCorrected : request.expectPhiPlus = true)
    (hApart : [counter, qubit, bell].Nodup)
    (hUsed : [counter, qubit, bell] ⊆ s.allocation.registers)
    (hEffect : effect (do
        waitForPair results counter
        correctReceived results request .receive counter qubit bell
        x) s = (.ok v, t)) :
    ∃ (front : List Item) (u : Session), Adds front s u ∧ effect x u = (.ok v, t) ∧
      ∀ behind, Aside [counter] False behind →
        CorrectsIn results.address counter False (front ++ behind) := by
  rcases of_binds_ok hEffect with ⟨_, _, hWait, _, u, hCorrect, hRest⟩
  rcases adds_waitForPair hWait with ⟨before, hAdds₁, hAside⟩
  rw [correctReceived, hCorrected] at hCorrect
  rcases adds_correction hApart (fun r hr => hAdds₁.registers (hUsed hr)) hCorrect with
    ⟨c, hResults, hIndex, hDiffer, hAdds₂⟩
  refine ⟨before ++ c.code, u, hAdds₁.trans hAdds₂, hRest, fun behind hBehind => ?_⟩
  exact ⟨c, before, behind, List.append_assoc _ _ _, hResults, hIndex, hDiffer,
    hAside.mono (by simpa using hUsed mem_cons_self) fun _ => trivial, hBehind⟩

def standardInUse (s : Session) : List Reg := s.allocation.registers.filter fun r => r.bank = .r

-- An operation that adds code which is left at its end only and writes to no standard register that
-- was in use.
def Modest (x : SessionM Unit) : Prop :=
  ∀ s a t, effect x s = (.ok a, t) → ∃ code, Adds code s t ∧ Aside (standardInUse s) False code

theorem adds_futureQubit (hEffect : effect (futureQubit future) s = (.ok q, t)) : Adds [] s t := by
  rcases of_bind_ok hEffect with ⟨q', s₁, ⟨⟩, hLater⟩
  rcases of_bind_ok hLater with ⟨_, _, hActivate, ⟨⟩⟩
  rcases of_bind_ok hActivate with ⟨_, _, ⟨⟩, hSetting⟩
  rcases of_bind_ok hSetting with ⟨_, _, ⟨⟩, hPutting⟩
  rw [effect_get_bind] at hPutting
  split at hPutting <;> cases hPutting <;>
    exact .nothing ⟨fun _ hr => hr, fun _ _ hPlace _ => hPlace, fun _ _ => rfl, Nat.le_refl _⟩ rfl

-- Three registers are held over a loop whose rounds each correct their pair.
theorem passage_of_rounds {body : Reg → Reg → Reg → Nat → SessionM Unit} {results : Int}
    (hBody : ∀ counter qubit bell u, [counter, qubit, bell].Nodup →
      [counter, qubit, bell] ⊆ (reopened counter u).allocation.registers →
      counter ∈ Reg.ofBank .r → ∀ b v,
      effect (body counter qubit bell u.futures.size) (reopened counter u) = (.ok b, v) →
      ∃ code, Adds code (reopened counter u) v ∧ CorrectsIn results counter False code)
    (hEffect : effect (do
        let counter ← takeRegister
        let qubit ← takeRegister
        let bell ← takeRegister
        loopBody (.upTo (.int number)) (some counter) (body counter qubit bell)
        releaseAll [counter, qubit, bell]) s = (.ok a, t)) :
    AddsPassage number results False s t := by
  rcases adds_takeThree hEffect with ⟨counter, qubit, bell, s₁, hAdds₁, hApart, hUsed, hNew, hRest⟩
  rcases of_bind_ok hRest with ⟨_, s₂, hLoop, hRelease⟩
  have hRounds := adds_loop_used (P := CorrectsIn results counter False) (hUsed mem_cons_self)
    (fun b u hInside => by
      rcases hBody _ _ _ _ hApart hUsed (hNew counter mem_cons_self).1 b u hInside with
        ⟨code, hAdds, hRound⟩
      exact ⟨code, ne_nil_of_correctsIn hRound, hAdds, hRound⟩) hLoop
  rcases hRounds with ⟨labels, code, hAdds₂, hRound⟩
  rw [(releaseAll_ok hRelease).1]
  exact passage_of_loop ((hAdds₁.trans hAdds₂).releasedAll fun r hr => (hNew r hr).2) hRound

theorem adds_handOver {routine : Nat → Nat → SessionM Unit}
    (hCorrected : request.expectPhiPlus = true) (hModest : ∀ q pair, Modest (routine q pair))
    (hEffect : effect (handOver qubits request results .receive routine) s = (.ok a, t)) :
    AddsPassage request.number results.address False s t := by
  refine passage_of_rounds (fun counter qubit bell s₁ hApart hOpen hBank b u hInside => ?_) hEffect
  rcases of_bind_ok hInside with ⟨⟨q, pair⟩, u₁, hArriving, hRoutine⟩
  rcases adds_arrival hCorrected hApart hOpen hArriving with
    ⟨front, _, hAdds₂, hNaming, hCorrects⟩
  rcases of_binds_ok hNaming with ⟨entry, u₃, hEntry, q', u₄, hQubit, hNaming₂⟩
  rcases of_bind_ok hNaming₂ with ⟨pair', u₅, hPair, ⟨⟩⟩
  have hAdds₃ := ((hAdds₂.trans (adds_newFuture hEntry).1).trans
    (adds_futureQubit hQubit)).trans (adds_newFuture hPair).1
  rcases hModest q pair u₁ b u hRoutine with ⟨behind, hAdds₄, hBeside⟩
  have hCounterThere : counter ∈ standardInUse u₁ := by
    refine mem_filter.mpr ⟨hAdds₃.registers (hOpen mem_cons_self), ?_⟩
    rcases mem_map.mp hBank with ⟨_, _, rfl⟩
    rfl
  refine ⟨front ++ behind, by simpa using hAdds₃.trans hAdds₄, hCorrects behind ?_⟩
  exact hBeside.mono (by simpa using hCounterThere) fun hNever => hNever

-- Each pair but the last is moved away when it has come.
theorem adds_moveToStorage (hCorrected : request.expectPhiPlus = true)
    (hEffect : effect (moveToStorage request results .receive) s = (.ok a, t)) :
    AddsPassage request.number results.address False s t := by
  refine passage_of_rounds (fun counter _ _ s₁ hApart hOpen _ b u hInside => ?_) hEffect
  rcases adds_arrival hCorrected hApart hOpen hInside with
    ⟨_, u₁, hAdds₂, hMoving, hCorrects⟩
  have hPlace : u₁.place? s₁.futures.size = some (.register (some counter)) :=
    hAdds₂.places _ _ (place?_withFuture _ _) (by rintro ⟨⟩)
  have hMoves : ∃ exit code,
      Adds (command .beq [.reg counter, .int (request.number - 1), .label exit] ::
        (code ++ [.label exit none])) u₁ u ∧ Aside [counter] False code := by
    refine adds_condition rfl (by decide) hPlace (fun _ v hMove => ?_) hMoving
    rcases adds_takeRegister hMove with ⟨target, _, hAdds₃, _, hTargetFresh, _, hMove₁⟩
    rcases adds_takeRegister hMove₁ with ⟨source, _, hAdds₄, _, hSourceFresh, _, hMove₂⟩
    rcases of_binds_ok hMove₂ with ⟨_, _, hAdd, _, _, hRelease₁, hRelease₂⟩
    have hThere : counter ∈ (guardedFrom u₁).allocation.registers :=
      hAdds₂.registers (hOpen mem_cons_self)
    have hSourceNew : source ∉ (guardedFrom u₁).allocation.registers := fun hOld =>
      hSourceFresh (hAdds₃.registers hOld)
    have hAdds₅ := ((hAdds₃.trans hAdds₄).trans (adds_add hAdd)).released hTargetFresh
    rw [← release_ok hRelease₁] at hAdds₅
    have hAdds₆ := hAdds₅.released hSourceNew
    rw [← release_ok hRelease₂] at hAdds₆
    have hTargetOther : target ∉ [counter] := fun h => hTargetFresh (mem_singleton.mp h ▸ hThere)
    have hSourceOther : source ∉ [counter] := fun h => hSourceNew (mem_singleton.mp h ▸ hThere)
    refine ⟨_, by simp, hAdds₆, ?_⟩
    exact .append .nil (.append (aside_writes rfl rfl hTargetOther)
      (.append (aside_writes rfl rfl hSourceOther)
        (.append (.straight rfl (fun _ _ => not_mem_nil) False.elim)
          (.straight rfl (fun _ _ => not_mem_nil) False.elim))))
  rcases hMoves with ⟨exit, code, hAdds₃, hBeside⟩
  exact ⟨_, hAdds₂.trans hAdds₃,
    hCorrects _ (hBeside.skipped [.reg counter, .int (request.number - 1)] rfl)⟩

---- Receptions

theorem adds_acceptPairs {qubits : Operand} {waiting : Bool}
    (hEffect : effect (acceptPairs request qubits results waiting) s = (.ok a, t)) :
    ∃ code, Adds code s t ∧ Aside [] True code := by
  rcases of_bind_ok hEffect with ⟨_, s₁, hAccept, hWait⟩
  refine ⟨_, (adds_addOne hAccept).trans (adds_add hWait), .append ?_ ?_⟩
  · exact .mute rfl (by rintro r ⟨⟩)
  · cases waiting with
    | false => exact .nil
    | true => exact .mute rfl (by rintro r ⟨⟩)

-- Behind what was pending stands code that takes part in pairs, then a loop over the pairs in which
-- each is corrected.
def Received (number results : Int) (unseen : Prop) (s t : Session) : Prop :=
  ∃ (front : List Item) (p : Passage),
    t.pending.map Item.bare = s.pending.map Item.bare ++ (front ++ p.items number) ∧
      Aside [] unseen front ∧ p.Sound unseen ∧ p.correction.results = results

theorem Received.mono {results : Int} {asked : Prop}
    (hReceived : Received number results unseen s t) (hAsked : asked → unseen) :
    Received number results asked s t := by
  rcases hReceived with ⟨front, p, hPending, hFront, hSound, hResults⟩
  exact ⟨front, p, hPending, hFront.mono (Subset.refl _) hAsked,
    ⟨hSound.apart, hSound.before.mono (Subset.refl _) hAsked,
      hSound.behind.mono (Subset.refl _) hAsked⟩, hResults⟩

theorem received_of_adds {address results : Int} {front : List Item} {v w : Session}
    (hAddress : results = address) (hBefore : t.pending = s.pending) (hFront : Adds front t u)
    (hAside : Aside [] True front) (hPassage : AddsPassage number results unseen u v)
    (hBehind : w.pending = v.pending) : Received number address unseen s w := by
  rcases hPassage with ⟨p, hLoop, hSound, hResults⟩
  refine ⟨front, p, ?_, hAside.mono (Subset.refl _) fun _ => trivial, hSound,
    hResults.trans hAddress⟩
  rw [hBehind, hLoop.pending, hFront.pending, hBefore, List.append_assoc]

-- How pairs are received: they are kept and all waited for, they are prepared at the other end, or
-- each is handed to a routine when it comes.
inductive Reception
  | kept
  | prepared
  | handed (routine : Nat → Nat → SessionM Unit)

namespace Reception

def perform (request : PairRequest) : Reception → SessionM (List Nat × List KeepResult)
  | kept => keepPairs (m := SessionM) .receive request none
  | prepared => receivePairs request
  | handed routine => keepPairs (m := SessionM) .receive request (some routine)

-- The routine, if there is one, leaves alone what is in use.
def Modest : Reception → Prop
  | handed routine => ∀ q pair, Session.Modest (routine q pair)
  | _ => True

-- Whether all pairs are waited for before the first is corrected.
def awaitsAll (hardware : Hardware) : Reception → Prop
  | kept => hardware.communication ≠ 1
  | prepared => True
  | handed _ => False

end Reception

variable (hGeneric : s.hardware.nv = false)
include hGeneric
theorem planned {kind : PairKind} {hasRoutine : Bool}
    {x : HostArray → List Nat → SessionM α} {v : α}
    (hEffect : effect (do
        checkRequest kind request hasRoutine
        let results ← resultsArray request.number
        let qubits ← pairQubits request results
        x results qubits) s = (.ok v, t)) :
    ∃ results qubits u, results.address = s.allocation.newAddress.1 ∧
      u.pending = s.pending ∧ u.hardware = s.hardware ∧
      effect (x results qubits) u = (.ok v, t) := by
  rcases of_bind_ok hEffect with ⟨_, s₁, hCheck, hAfter₁⟩
  cases checkRequest_ok hCheck
  rcases of_bind_ok hAfter₁ with ⟨results, s₂, hResults, hAfter₂⟩
  rcases (Calm.newArray _ _).kept hResults with ⟨hPending₂, hHardware₂⟩
  rcases of_bind_ok hAfter₂ with ⟨qubits, s₃, hQubits, hRest⟩
  rcases pairQubits_ok (by rw [hHardware₂]; exact hGeneric) hQubits with ⟨hPending₃, hHardware₃⟩
  exact ⟨results, qubits, s₃, newArray_address hResults, hPending₃.trans hPending₂,
    hHardware₃.trans hHardware₂, hRest⟩

variable (hCorrected : request.expectPhiPlus = true)
include hCorrected
theorem received_requestKept {answer : List Nat × HostArray}
    (hModest : ∀ f ∈ routine, ∀ q pair, Modest (f q pair))
    (hEffect : effect (requestKept .receive request false routine) s = (.ok answer, t)) :
    Received request.number s.allocation.newAddress.1
      (routine = none ∧ s.hardware.communication ≠ 1) s t := by
  rcases of_bind_ok hEffect with ⟨⟨qubits, results, addresses⟩, s₁, hAsking, hHanding⟩
  rcases planned hGeneric hAsking with
    ⟨results', qubits', s₂, hAddress, hPending, hHardware, hAfter⟩
  rw [effect_get_bind] at hAfter
  have hArray : ∃ array u, u.pending = s₂.pending ∧ effect (do
      acceptKept request array results'
        (!(routine.isSome || decide (s₂.hardware.communication = 1)))
      if routine.isNone && decide (s₂.hardware.communication = 1) then
        moveToStorage request results' .receive
      return (qubits', results', array)) u = (.ok (qubits, results, addresses), s₁) := by
    dsimp only at hAfter
    split at hAfter
    · rcases of_bind_ok hAfter with ⟨given, s₃, ⟨⟩, hAfter₁⟩
      rcases of_bind_ok hAfter₁ with ⟨array, s₄, hMake, hRest⟩
      exact ⟨array, s₄, ((Calm.newArray _ _).kept hMake).1, hRest⟩
    · rcases of_binds_ok hAfter with ⟨given, s₃, hGiven, array, s₄, hMake, hRest⟩
      exact ⟨array, s₄, ((Calm.newArray _ _).kept hMake).1.trans
        ((Calm.addressesOf _).kept hGiven).1, hRest⟩
  rcases hArray with ⟨array, s₃, hPlanned, hAccepting⟩
  rcases of_bind_ok hAccepting with ⟨_, s₄, hAccept, hMoving⟩
  rcases of_bind_ok hAccept with ⟨_, s₅, hPairs, hCorrect⟩
  rcases adds_acceptPairs hPairs with ⟨front, hFront, hAside⟩
  have hBefore : s₃.pending = s.pending := hPlanned.trans hPending
  rw [hHardware] at hMoving hCorrect
  rw [hCorrected] at hCorrect
  cases routine with
  | some routine =>
    cases hMoving
    cases hCorrect
    rcases of_bind_ok hHanding with ⟨_, s₆, hHand, ⟨⟩⟩
    exact (received_of_adds hAddress hBefore hFront hAside
      (adds_handOver hCorrected (hModest routine rfl) hHand) rfl).mono (by rintro ⟨⟨⟩, _⟩)
  | none =>
    cases hHanding
    by_cases hSingle : s.hardware.communication = 1
    · -- there is one place for pairs, from which each is moved away
      rw [hSingle] at hMoving hCorrect
      cases hCorrect
      rcases of_bind_ok hMoving with ⟨_, s₆, hMove, ⟨⟩⟩
      exact (received_of_adds hAddress hBefore hFront hAside (adds_moveToStorage hCorrected hMove)
        rfl).mono fun hSeveral => hSeveral.2 hSingle
    · have hSeveral : decide (s.hardware.communication = 1) = false := decide_eq_false hSingle
      rw [hSeveral] at hMoving hCorrect
      cases hMoving
      exact (received_of_adds hAddress hBefore hFront hAside (adds_correctPairs hCorrect)
        rfl).mono fun _ => trivial

theorem received_receivePrepared (hEffect : effect (receivePrepared request) s = (.ok answer, t)) :
    Received request.number s.allocation.newAddress.1 True s t := by
  rcases planned hGeneric hEffect with ⟨results, qubits, s₁, hAddress, hPending, _, hAfter₁⟩
  rcases of_binds_ok hAfter₁ with ⟨given, s₂, hGiven, array, s₃, hMake, hAfter₃⟩
  rcases of_binds_ok hAfter₃ with ⟨_, s₄, hAccept, kept, s₅, hKept, ⟨⟩⟩
  have hBefore : s₃.pending = s.pending :=
    (((Calm.newArray _ _).kept hMake).1.trans ((Calm.addressesOf _).kept hGiven).1).trans hPending
  rcases of_bind_ok hAccept with ⟨_, s₆, hPairs, hCorrect⟩
  rw [hCorrected] at hCorrect
  rcases adds_acceptPairs hPairs with ⟨front, hFront, hAside⟩
  exact received_of_adds hAddress hBefore hFront hAside (adds_correctPairs hCorrect)
    ((Calm.keepResults _ _).kept hKept).1

theorem received_keepPairs (hOnce : request.minFidelity = none)
    (hModest : ∀ f ∈ routine, ∀ q pair, Modest (f q pair))
    (hEffect : effect (keepPairs (m := SessionM) .receive request routine) s = (.ok answer, t)) :
    Received request.number s.allocation.newAddress.1
      (routine = none ∧ s.hardware.communication ≠ 1) s t := by
  rw [keepPairs, hOnce] at hEffect
  rcases of_binds_ok hEffect with ⟨⟨_, results⟩, s₁, hRequest, kept, _, hKept, ⟨⟩⟩
  have hKept' : effect (keepResults request results) s₁ = (.ok kept, t) := hKept
  rcases received_requestKept hGeneric hCorrected hModest hRequest with ⟨front, p, hPending, hRest⟩
  exact ⟨front, p, by rw [((Calm.keepResults _ _).kept hKept').1, hPending], hRest⟩

theorem received_of_perform {reception : Reception} (hOnce : request.minFidelity = none)
    (hModest : reception.Modest)
    (hEffect : effect (reception.perform request) s = (.ok answer, t)) :
    Received request.number s.allocation.newAddress.1 (reception.awaitsAll s.hardware) s t := by
  cases reception with
  | kept =>
    exact (received_keepPairs hGeneric hCorrected hOnce (by rintro f ⟨⟩) hEffect).mono
      fun hSeveral => ⟨rfl, hSeveral⟩
  | prepared =>
    rw [Reception.perform, receivePairs, hOnce] at hEffect
    exact received_receivePrepared hGeneric hCorrected hEffect
  | handed routine =>
    have hGiven : ∀ f ∈ some routine, ∀ q pair, Modest (f q pair) := by
      rintro f ⟨⟩
      exact hModest
    exact (received_keepPairs hGeneric hCorrected hOnce hGiven hEffect).mono False.elim

end Session

end QuantumNode
