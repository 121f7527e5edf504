import QuantumNode.Proofs.Draft.Rounds
import QuantumNode.Proofs.Session.Receiving

/-
  What a program that receives pairs does to correct them. The right gates are carried out for the
  Bell state of each pair, but always on the qubit with address zero.
-/

open List

namespace QuantumNode
open BellState
variable {c : Correction} {number : Int} {first last : List Item} {p : Passage} {unseen : Prop}
  {r : Reg}

open Node Machine Assembly Flow Draft Session

---- Effect

-- The gates for a Bell state, given by its number, on a qubit.
def corrections (bell qubit : Int) : List Event :=
  ((ofValue? bell).elim [] gates).map fun op => .rotation op qubit ⟨16, 4⟩

namespace Draft
variable {app : Int}

-- Only some registers change.
structure Alters (app : Int) (written : List Reg) (s t : Node) : Prop where
  registers : ∀ q, q ∉ written → t.registerOf app q = s.registerOf app q
  entries : ∀ address place, t.entryAt app address place = s.entryAt app address place
  events : t.events = s.events

namespace Alters
variable {written others : List Reg} {s t u : Node}

protected theorem trans (hFirst : Alters app written s t) (hThen : Alters app written t u) :
    Alters app written s u :=
  ⟨fun q hq => (hThen.registers q hq).trans (hFirst.registers q hq),
    fun a p => (hThen.entries a p).trans (hFirst.entries a p),
    hThen.events.trans hFirst.events⟩

theorem mono (hAlters : Alters app written s t) (hMore : written ⊆ others) :
    Alters app others s t :=
  ⟨fun q hq => hAlters.registers q fun hWritten => hq (hMore hWritten), hAlters.entries,
    hAlters.events⟩

theorem of_sets (hSets : Sets app r v s t) (hWritten : r ∈ written) : Alters app written s t := by
  refine ⟨fun q hq => hSets.registerOf_of_ne ?_, hSets.entryAt_eq, hSets.events_eq⟩
  rintro rfl
  exact hq hWritten

end Alters

end Draft

namespace Correction
variable {whole : List Item} {sub : Nat} {app : Int}

-- Events are added, and nothing else changes.
def Shows (shown : List Event) (s t : Node) : Prop := t = { s with events := s.events ++ shown }

-- A pair is corrected: the gates for the Bell state among its results are carried out on the qubit
-- with address zero.
structure Corrects (app : Int) (c : Correction) (i : Nat) (s t : Node) : Prop where
  index : s.registerOf app c.index = some (i : Int)
  gates : ∃ bell, s.entryAt app c.results (resultSize * i + keepBell) = some bell ∧
      t.events = s.events ++ corrections bell 0
  entries : ∀ address place, t.entryAt app address place = s.entryAt app address place

variable (hFits : Fits whole)
include hFits
theorem passes_halfTurns (qubit : Reg) (ops : List Op)
    (hOps : ∀ op ∈ ops, op = .rotX ∨ op = .rotZ) :
    Passes whole sub app (ops.map (halfTurn · qubit)) fun s u =>
      ∀ q, s.registerOf app qubit = some q →
        Shows (ops.map fun op => .rotation op q ⟨16, 4⟩) s u := by
  induction ops with
  | nil =>
    refine Passes.nil.mono ?_
    rintro s u _ _ rfl q _
    simp [Shows]
  | cons op ops ih =>
    have hFirst : Passes whole sub app [halfTurn op qubit] fun s u =>
        ∀ q, s.registerOf app qubit = some q → Shows [.rotation op q ⟨16, 4⟩] s u := by
      have hOp := hOps op mem_cons_self
      refine Passes.command hFits (by rcases hOp with rfl | rfl <;> rfl) rfl ?_
      intro s v u hHosts hEffect q hQubit
      rcases carryOut_rotation hHosts hOp hEffect with ⟨_, hQubit', hShown⟩
      cases hQubit.symm.trans hQubit'
      exact hShown
    refine (hFirst.append (ih fun op hOp => hOps op (mem_cons_of_mem _ hOp))).mono ?_
    rintro s u _ _ ⟨m, _, hHere, hLater⟩ q hQubit
    have hMiddle := hHere q hQubit
    subst hMiddle
    have hDone := hLater q hQubit
    rw [Shows] at ⊢
    rw [hDone]
    simp

variable (hResolves : Resolves whole)
include hResolves
-- The gates for one Bell state, if it is the one in the register.
theorem passes_gateItems (state : BellState) (bell qubit : Reg) (exit : String) :
    Passes whole sub app (gateItems state bell qubit exit) fun s u =>
      ∀ b q, s.registerOf app bell = some b → s.registerOf app qubit = some q →
        Shows (if b = state.value then state.gates.map fun op => .rotation op q ⟨16, 4⟩ else [])
          s u := by
  have hGates : ∀ op ∈ state.gates, op = .rotX ∨ op = .rotZ := by cases state <;> simp [gates]
  refine Passes.skip hFits hResolves rfl rfl (passes_halfTurns hFits qubit _ hGates) ?_ ?_
  · intro s hHosts hTaken b q hBell _
    have hOther := (takenWith_bne hHosts hTaken).symm
    simp only [valueIn, hBell, Operand.number?, bne_iff_ne, ne_eq, Option.some.injEq] at hOther
    rw [if_neg hOther]
    simp [Shows]
  · intro s u hHosts hTaken hDone b q hBell hQubit
    have hSame := (takenWith_bne hHosts hTaken).symm
    simp only [valueIn, hBell, Operand.number?, bne_eq_false_iff_eq, Option.some.injEq] at hSame
    rw [if_pos hSame]
    exact hDone q hQubit

omit hFits hResolves in
theorem corrections_eq (bell qubit : Int) :
    corrections bell qubit = (if bell = phiMinus.value then
          phiMinus.gates.map fun op => .rotation op qubit ⟨16, 4⟩ else []) ++
        ((if bell = psiPlus.value then
            psiPlus.gates.map fun op => .rotation op qubit ⟨16, 4⟩ else []) ++
          if bell = psiMinus.value then
            psiMinus.gates.map fun op => .rotation op qubit ⟨16, 4⟩ else []) := by
  unfold corrections BellState.ofValue? BellState.all
  rcases eq_or_ne bell 0 with rfl | hPhiPlus
  · rfl
  rcases eq_or_ne bell 1 with rfl | hPsiPlus
  · rfl
  rcases eq_or_ne bell 2 with rfl | hPsiMinus
  · rfl
  rcases eq_or_ne bell 3 with rfl | hPhiMinus
  · rfl
  simp [value, hPsiPlus, hPsiMinus, hPhiMinus, hPhiPlus.symm, hPsiPlus.symm, hPsiMinus.symm,
    hPhiMinus.symm]

theorem passes_choice (c : Correction) :
    Passes whole sub app c.choice fun s u =>
      ∀ b q, s.registerOf app c.bell = some b → s.registerOf app c.qubit = some q →
        Shows (corrections b q) s u := by
  refine ((passes_gateItems hFits hResolves _ _ _ _).append
    ((passes_gateItems hFits hResolves _ _ _ _).append
      (passes_gateItems hFits hResolves _ _ _ _))).mono ?_
  rintro s u _ _ ⟨m, _, hFirst, _, _, hSecond, hThird⟩ b q hBell hQubit
  have hM := hFirst b q hBell hQubit
  subst hM
  have hM' := hSecond b q hBell hQubit
  subst hM'
  have hU := hThird b q hBell hQubit
  rw [Shows] at ⊢
  rw [hU]
  simp [← corrections_eq]

theorem passes_bellItems (hApart : c.Apart) :
    Passes whole sub app (bellItems c.results c.index c.place c.round c.bell c.labels) fun s u =>
      Alters app [c.place, c.round, c.bell] s u ∧
        ∀ i : Nat, s.registerOf app c.index = some (i : Int) →
          ∃ b, s.entryAt app c.results (resultSize * i + keepBell) = some b ∧
            u.registerOf app c.bell = some b := by
  simp only [Apart, scratch, nodup_cons, mem_cons, not_or] at hApart
  rcases hApart with ⟨⟨hIndexPlace, hIndexRound, _⟩,
    ⟨hPlaceRound, _⟩, _⟩
  have hStart : Passes whole sub app [command .set [.reg c.place, .int keepBell]] fun s u =>
      Sets app c.place keepBell s u :=
    Passes.command hFits rfl rfl
      fun s v u hHosts hEffect => carryOut_set hHosts rfl hEffect
  have hBody : Passes whole sub app [command .add [.reg c.place, .reg c.place, .int resultSize]]
      fun s u => ∃ v, s.registerOf app c.place = some v ∧
        Sets app c.place (v + resultSize) s u := by
    refine Passes.command hFits rfl rfl ?_
    intro s a u hHosts hEffect
    rcases carryOut_add hHosts hEffect with ⟨v, _, hPlace, ⟨⟩, hSets⟩
    exact ⟨v, hPlace, hSets⟩
  have hLoop : Passes whole sub app (loopItems c.labels c.round (.upTo (.reg c.index))
        [command .add [.reg c.place, .reg c.place, .int resultSize]]) fun s u =>
      Alters app [c.place, c.round] s u ∧
        ∀ (i : Nat) v, s.registerOf app c.index = some (i : Int) →
          s.registerOf app c.place = some v →
          u.registerOf app c.place = some (v + resultSize * i) := by
    refine Passes.loop hFits hResolves rfl (label?_reg _) rfl hBody
      (fun s w => Alters app [c.place, c.round] s w ∧ ∃ k : Nat,
        w.registerOf app c.round = some (k : Int) ∧
        ∀ v, s.registerOf app c.place = some v →
          w.registerOf app c.place = some (v + resultSize * k)) ?_ ?_ ?_
    · intro s a u hHosts hEffect
      have hSets := carryOut_set hHosts rfl hEffect
      refine ⟨.of_sets hSets (by simp), 0, hSets.registerOf_self, fun v hPlace => ?_⟩
      rw [hSets.registerOf_of_ne hPlaceRound, hPlace]
      simp
    · rintro s w x a y ⟨hAlters, k, hRound, hPlace⟩ _ hHosts _ ⟨_, hPlace', hAdded⟩ hEffect
      rcases carryOut_add hHosts hEffect with ⟨_, _, hRound', ⟨⟩, hSets⟩
      rw [valueIn, hAdded.registerOf_of_ne (Ne.symm hPlaceRound), hRound] at hRound'
      cases hRound'
      refine ⟨(hAlters.trans (.of_sets hAdded (by simp))).trans (.of_sets hSets (by simp)),
        k + 1, ?_, fun v hStart => ?_⟩
      · rw [hSets.registerOf_self]
        rfl
      · rw [hPlace v hStart] at hPlace'
        cases hPlace'
        rw [hSets.registerOf_of_ne hPlaceRound, hAdded.registerOf_self]
        rw [Int.add_assoc, Int.natCast_succ, Int.mul_add, Int.mul_one]
    · rintro s w ⟨hAlters, k, hRound, hPlace⟩ hHosts hTaken
      refine ⟨hAlters, fun i v hIndex hStart => ?_⟩
      have hDone : valueIn w app (.reg c.round) = valueIn w app (.reg c.index) :=
        beq_iff_eq.mp (takenWith_beq hHosts hTaken).symm
      rw [valueIn, valueIn, hRound, hAlters.registers c.index (by simp [hIndexPlace, hIndexRound]),
        hIndex] at hDone
      cases hDone
      exact hPlace v hStart
  have hLoad : Passes whole sub app [command .load [.reg c.bell, .entry c.results (.reg c.place)]]
      fun s u => ∃ place b, s.registerOf app c.place = some place ∧
        s.entryAt app c.results place = some b ∧ Sets app c.bell b s u :=
    Passes.command hFits rfl rfl
      fun s v u hHosts hEffect => carryOut_load hHosts hEffect
  refine (hStart.append (hLoop.append hLoad)).mono ?_
  rintro s u _ _ ⟨m, _, hSet, _, _, ⟨hAlters, hPlace⟩, place, b, hThere, hEntry, hBell⟩
  have hMore : [c.place, c.round] ⊆ [c.place, c.round, c.bell] := by simp
  refine ⟨((Alters.of_sets hSet (by simp)).trans (hAlters.mono hMore)).trans
    (.of_sets hBell (by simp)), fun i hIndex => ⟨b, ?_, hBell.registerOf_self⟩⟩
  have hIndex' : m.registerOf app c.index = some (i : Int) := by
    rw [hSet.registerOf_of_ne hIndexPlace, hIndex]
  rw [hPlace i keepBell hIndex' hSet.registerOf_self] at hThere
  cases hThere
  rw [← hSet.entryAt_eq, ← hAlters.entries, Int.add_comm]
  exact hEntry

-- The right gates, but always on the qubit with address zero.
theorem passes_code (hApart : c.Apart) :
    Passes whole sub app c.code fun s u =>
      ∀ i : Nat, s.registerOf app c.index = some (i : Int) →
        Corrects app c i s u ∧ u.registerOf app c.index = some (i : Int) := by
  have hAim : Passes whole sub app [command .set [.reg c.qubit, .int 0]] fun s u =>
      Sets app c.qubit 0 s u :=
    Passes.command hFits rfl rfl
      fun s v u hHosts hEffect => carryOut_set hHosts rfl hEffect
  refine ((passes_bellItems hFits hResolves hApart).append
    (hAim.append (passes_choice hFits hResolves c))).mono ?_
  rintro s u _ _ ⟨m, _, ⟨hAlters, hFound⟩, m', _, hAimed, hGates⟩ i hIndex
  rcases hFound i hIndex with ⟨b, hEntry, hBell⟩
  have hBell' : m'.registerOf app c.bell = some b := by
    rw [hAimed.registerOf_of_ne, hBell]
    simp only [Apart, scratch, nodup_cons, mem_cons] at hApart
    tauto
  have hShown := hGates b 0 hBell' hAimed.registerOf_self
  have hMore : [c.place, c.round, c.bell] ⊆ c.scratch := by simp [scratch]
  have hBefore : Alters app c.scratch s m' :=
    (hAlters.mono hMore).trans (.of_sets hAimed (by simp [scratch]))
  refine ⟨⟨hIndex, ⟨b, hEntry, ?_⟩, fun address place => ?_⟩, ?_⟩
  · rw [hShown, ← hBefore.events]
  · rw [← hBefore.entries address place, hShown]
    rfl
  · rw [← hIndex, ← hBefore.registers c.index (nodup_cons.mp hApart).1, hShown]
    rfl

end Correction

namespace Session
variable {whole : List Item} {sub : Nat} {app : Int}

-- A program that comes to its end corrects one pair after the other, in rounds through the same
-- lines.
theorem Passage.inRounds (hFits : Fits whole) (hResolves : Resolves whole)
    (hWhole : whole = first ++ (p.items number ++ last))
    (hFirst : Aside [] unseen first) (hSound : p.Sound unseen) (hLast : Aside [] unseen last)
    (hHosts : s.Hosts sub app) (hRun : Run (Draft.program whole sub) whole s visits (.ok ()) t)
    (hLow : lo = size first + size (loopStart p.labels p.correction.index (.upTo (.int number))) +
      size p.before) (hHigh : hi = lo + size p.correction.code) :
    InRounds (Draft.program whole sub) (fun k => (lineOf whole k : Int)) lo hi
      (fun w x => unseen → x.events = w.events) (Correction.Corrects app p.correction)
      number.toNat 0 whole s t := by
  have hBeside : ∀ {kept code}, Aside kept unseen code → Passes whole sub app code fun s u =>
      (unseen → u.events = s.events) ∧
        ∀ r ∈ kept, ∀ v, s.registerOf app r = some v → u.registerOf app r = some v :=
    fun hAside => Passes.aside hFits hResolves hAside
  rcases hBeside hFirst [] _ whole s visits t hWhole (by rw [← hWhole]; rfl) hHosts hRun with
    ⟨_, _, u, _, rfl, hPath, hStop, hLines, hThere, ⟨hUnseen, _⟩, hOn⟩
  have hTrans : ∀ w x y : Node, (unseen → x.events = w.events) → (unseen → y.events = x.events) →
      unseen → y.events = w.events :=
    fun w x y hThen hLater hAsked => (hLater hAsked).trans (hThen hAsked)
  have hKept : ∀ {code}, Aside [p.correction.index] unseen code →
      Passes whole sub app code fun s u =>
        (unseen → u.events = s.events) ∧ ∀ v, s.registerOf app p.correction.index = some v →
            u.registerOf app p.correction.index = some v :=
    fun hAside => (hBeside hAside).mono fun s u _ _ hPassed =>
      ⟨hPassed.1, hPassed.2 _ mem_cons_self⟩
  have hTail : Passes whole sub app last fun s u => unseen → u.events = s.events :=
    (hBeside hLast).mono fun _ _ _ _ hPassed => hPassed.1
  have hRounds := inRounds_of_loop hFits hResolves hTrans
    (fun r v s u hSets _ => hSets.events_eq) (hKept hSound.before)
    (Correction.passes_code hFits hResolves hSound.apart) (hKept hSound.behind) hTail hWhole
    hStop hThere hOn hLow hHigh
  refine hRounds.prepend hTrans hPath (fun v hv => .inl ?_) hUnseen
  have hBounds := hLines v hv
  simp only [size] at hBounds
  omega

theorem Passage.inRounds_instrs {is : List Instr} (hCoded : Coded whole whole is)
    (hPlain : AllPlain whole) (hResolves : Resolves whole)
    (hWhole : whole = first ++ (p.items number ++ last))
    (hFirst : Aside [] unseen first) (hSound : p.Sound unseen) (hLast : Aside [] unseen last) :
    ∃ lo hi : Nat, ∀ (sub : Nat) (app : Int) (n t : Node) (visits : List (Int × Node)),
      n.Hosts sub app → Run (Node.program sub is.toArray) 0 n visits (.ok ()) t →
      InRounds (Node.program sub is.toArray) (fun line => line) lo hi
        (fun w x => unseen → x.events = w.events) (Correction.Corrects app p.correction)
        number.toNat 0 0 n t := by
  let opening : List Item :=
    first ++ (loopStart p.labels p.correction.index (.upTo (.int number)) ++ p.before)
  let closing : List Item :=
    p.behind ++ loopEnd p.labels p.correction.index (.upTo (.int number)) ++ last
  have hLow : whole = opening ++ (p.correction.code ++ closing) := by
    rw [hWhole, Passage.items, loopItems]
    simp [opening, closing]
  have hHigh : whole = (opening ++ p.correction.code) ++ closing :=
    hLow.trans (List.append_assoc _ _ _).symm
  have hNamed : Named whole p.correction.index := by
    refine named_of_mem_inputs (c := .plain .beq [.reg p.correction.round, .reg p.correction.index,
      .label p.correction.labels.exit] none) ?_ (by simp [Command.plain, Command.inputs])
    rw [hLow, Correction.code, bellItems]
    simp [loopItems, loopStart, command, LoopRange.upTo]
  refine ⟨size opening, size (opening ++ p.correction.code), ?_⟩
  intro sub app n t visits hHosts hRun
  have hStart := At.start hCoded
  have hLinked := hHosts.linked (view whole []) rfl
  rcases draft_of_run hCoded hPlain hRun hStart hLinked with ⟨visits', r', t', hDraftRun⟩
  rcases run_of_draft hCoded hPlain hDraftRun hStart hLinked with ⟨others, q, u, hOther, hEnd, _⟩
  rcases hOther.unique hRun with ⟨rfl, rfl, rfl⟩
  have hOk : r' = .ok () := by
    cases r' with
    | ok a => rfl
    | error e => cases hEnd
  subst hOk
  have hRounds : InRounds (Draft.program whole sub) (fun k => (lineOf whole k : Int))
      (size opening : Nat) (size (opening ++ p.correction.code) : Nat)
      (fun w x => unseen → x.events = w.events) (Correction.Corrects app p.correction)
      number.toNat 0 whole n t' :=
    Passage.inRounds (fits_of_coded hCoded) hResolves hWhole hFirst hSound hLast hHosts hDraftRun
      (by simp only [opening, size_append, Nat.add_assoc]) (size_append _ _)
  have hBetween :
      ∀ w x w' x', Linked sub app (view whole []) w w' → Linked sub app (view whole []) x x' →
        (unseen → x.events = w.events) → unseen → x'.events = w'.events := by
    intro w x w' x' hThere hThen hUnseen hAsked
    rw [hThere.visible, hThen.visible]
    exact hUnseen hAsked
  have hAlike :
      ∀ i w x w' x', Linked sub app (view whole []) w w' → Linked sub app (view whole []) x x' →
        Correction.Corrects app p.correction i w x →
        Correction.Corrects app p.correction i w' x' := by
    rintro i w x w' x' hThere hThen ⟨hIndex, ⟨bell, hEntry, hEvents⟩, hEntries⟩
    rw [hThere.visible, hThen.visible]
    refine ⟨?_, ⟨bell, hEntry, hEvents⟩, hEntries⟩
    exact (hThere.registerOf_eq hNamed).trans hIndex
  rcases inRounds_coded hCoded hPlain hBetween
    hAlike ⟨_, _, hLow, rfl⟩ ⟨_, _, hHigh, rfl⟩ hRounds hStart hLinked with ⟨t'', hDone, _⟩
  rcases hDone.run with ⟨visits'', hAgain⟩
  rcases hAgain.unique hRun with ⟨_, _, rfl⟩
  exact hDone

/-
  A program that receives pairs comes to its end in as many rounds as there are pairs. In the round
  of a pair it carries out the gates for the Bell state that is reported for the pair, all of them
  on the qubit with address zero. If nothing else was pending and all pairs are waited for, it
  carries out nothing else.
-/
theorem pairs_corrected_at_zero
    {s s₁ s₂ : Session}
    {request : PairRequest}
    {reception : Reception}
    {answer : List Nat × List KeepResult}
    {d : Draft}
    {flavour : Flavour}
    {p : Subroutine}
    (hGeneric : s.hardware.nv = false)
    (hCorrected : request.expectPhiPlus = true)
    (hOnce : request.minFidelity = none)
    (hModest : reception.Modest)
    (hBefore : Contained (s.pending.map Item.bare))
    (hReceive : effect (reception.perform request) s = (.ok answer, s₁))
    (hDraft : effect popDraft s₁ = (.ok (some d), s₂))
    (hAssemble : assemble .full flavour d = .ok p)
    (hPlain : AllPlain d.items) :
    ∃ (c : Correction) (lo hi : Nat), c.results = s.allocation.newAddress.1 ∧
      ∀ (sub : Nat) (app : Int) (n t : Node) (visits : List (Int × Node)), n.Hosts sub app →
        Run (Node.program sub p.instrs.toArray) 0 n visits (.ok ()) t →
        InRounds (Node.program sub p.instrs.toArray) (fun line => line) lo hi (fun w x =>
            s.pending = [] ∧ reception.awaitsAll s.hardware → x.events = w.events)
          (Correction.Corrects app c) request.number.toNat 0 0 n t := by
  rcases received_of_perform hGeneric hCorrected hOnce hModest hReceive with
    ⟨front, passage, hPending, hFront, hSound, hResults⟩
  rcases popDraft_parts (nil_subset _) hDraft with ⟨making, back, hItems, hMaking, hBack⟩
  have hCoded := coded_bare (coded_of_assemble hPlain hAssemble)
  have hWhole : d.items.map Item.bare =
      (making ++ (s.pending.map Item.bare ++ front)) ++ (passage.items request.number ++ back) := by
    rw [hItems, hPending]
    simp
  have hAlone :
      Aside [] (s.pending = [] ∧ reception.awaitsAll s.hardware) (s.pending.map Item.bare) := by
    refine ⟨hBefore, by rintro c _ r ⟨⟩, fun hNothing c hCommand => ?_⟩
    rw [hNothing.1] at hCommand
    cases hCommand
  have hFirst : Aside [] (s.pending = [] ∧ reception.awaitsAll s.hardware)
      (making ++ (s.pending.map Item.bare ++ front)) :=
    (hMaking.mono (List.Subset.refl _) fun _ => trivial).append
      (hAlone.append (hFront.mono (List.Subset.refl _) And.right))
  rcases Passage.inRounds_instrs hCoded (allPlain_bare.mpr hPlain) (resolves_bare hAssemble) hWhole
    hFirst
    ⟨hSound.apart, hSound.before.mono (List.Subset.refl _) And.right,
      hSound.behind.mono (List.Subset.refl _) And.right⟩
    (hBack.mono (List.Subset.refl _) fun _ => trivial) with ⟨lo, hi, hRounds⟩
  exact ⟨passage.correction, lo, hi, hResults, hRounds⟩

---- Two pairs

-- A session on generic hardware with three qubits, some of them in use.
def holding (addresses : List Int) : Session :=
  { (default : Session) with
    hardware := ⟨false, 3, 0⟩
    returnsArrays := true
    labels := .empty
    qubits := (addresses.map fun address => ⟨.fixed address, true, .nothing, none⟩).toArray
    allocation := { (Allocation.empty : Allocation HostArray) with
        qubits := List.range addresses.length } }

def pairIn (bell qubit : Int) : NewResponse :=
  .former (.keep { keptIn qubit with bellState := .int bell })

-- A node with some qubits in use, at which pairs arrive.
def receiving (unit : Block) (arrivals : List NewResponse) : Node :=
  { (effect (initApp 0 3) (Node.fresh "alice" 0 .vanilla false true)).2 with
    units := [(0, unit)]
    subroutines := [(0, some 0)]
    arrivals := arrivals }

def twoPairs : PairRequest := { PairRequest.one 1 0 with number := 2 }

def Reception.drafted (reception : Reception)
    (request : PairRequest) : SessionM ((List Nat × List KeepResult) × Draft) := do
  let answer ← reception.perform request
  match ← popDraft with
  | some d => return (answer, d)
  | none => throw .unmet

-- One qubit is in use when two pairs are prepared at the other end, in two different Bell states.
-- The pairs are at the second and the third address.
theorem pairs_corrected_at_zero_beside :
    ∃ (s₁ s₂ : Session) (answer : List Nat × List KeepResult) (d : Draft) (p : Subroutine)
      (visits : List (Int × Node)) (t : Node),
      effect (Reception.prepared.perform twoPairs) (holding [0]) = (.ok answer, s₁) ∧
      effect popDraft s₁ = (.ok (some d), s₂) ∧ assemble .full .vanilla d = .ok p ∧
      AllPlain d.items ∧
      Run (Node.program 0 p.instrs.toArray) 0
        (receiving [some 0, none, none] [pairIn 2 1, pairIn 3 2]) visits (.ok ()) t ∧
      (List.range 2).map (fun i => t.entryAt 0 1 i) = [some 1, some 2] ∧
      ∃ (c : Correction) (lo hi : Nat), c.results = 0 ∧
        InRounds (Node.program 0 p.instrs.toArray) (fun line => line) lo hi
          (fun w x =>
            (holding [0]).pending = [] ∧ Reception.prepared.awaitsAll (holding [0]).hardware →
              x.events = w.events)
          (Correction.Corrects 0 c) 2 0 0
          (receiving [some 0, none, none] [pairIn 2 1, pairIn 3 2]) t := by
  have hCompiled :
      ∃ v ∈ (effect (Reception.prepared.drafted twoPairs) (holding [0])).1.toOption,
        AllPlain v.2.items ∧ ∃ p ∈ (assemble .full .vanilla v.2).toOption,
          (effect (runFrom 0 p.instrs.toArray 200 0)
            (receiving [some 0, none, none] [pairIn 2 1, pairIn 3 2])).1.isOk ∧
          (List.range 2).map (fun i =>
            (effect (runFrom 0 p.instrs.toArray 200 0)
              (receiving [some 0, none, none] [pairIn 2 1, pairIn 3 2])).2.entryAt 0 1 i) =
            [some 1, some 2] := by
    decide +kernel
  rcases hCompiled with ⟨⟨answer, d⟩, hFound, hPlain, p, hInstrs, hEnds, hEntries⟩
  rcases hDrafted : effect (Reception.prepared.drafted twoPairs) (holding [0]) with ⟨e | v, s₂⟩ <;>
    rw [hDrafted] at hFound <;> cases hFound
  rcases of_binds_ok hDrafted with ⟨_, s₁, hPerform, _ | _, _, hDraft, ⟨⟩⟩
  rcases hAssemble : assemble .full .vanilla d with e | q <;> rw [hAssemble] at hInstrs <;>
    cases hInstrs
  rcases hNode : effect (runFrom 0 p.instrs.toArray 200 0)
    (receiving [some 0, none, none] [pairIn 2 1, pairIn 3 2]) with ⟨e | ⟨⟩, u⟩ <;>
    rw [hNode] at hEnds hEntries
  · cases hEnds
  · rcases run_of_runFrom_ok hNode with ⟨visits, t, _, hRun, rfl⟩
    have hModest : Reception.prepared.Modest := trivial
    have hBefore : Contained ((holding [0]).pending.map Item.bare) := .nil
    rcases pairs_corrected_at_zero rfl rfl rfl hModest hBefore hPerform hDraft hAssemble hPlain
      with ⟨c, lo, hi, hResults, hRounds⟩
    exact ⟨s₁, s₂, answer, d, p, visits, t, hPerform, hDraft, hAssemble, hPlain, hRun, hEntries, c,
      lo, hi, hResults, hRounds 0 0 _ t visits ⟨rfl, rfl, rfl⟩ hRun⟩

-- The second of two pairs needs a gate. Its address is one, but the gate is carried out on the
-- qubit of the first pair.
theorem gate_on_other_pair :
    ∃ v ∈ (effect (Reception.kept.drafted twoPairs) (holding [])).1.toOption,
      ∃ p ∈ (assemble .full .vanilla v.2).toOption,
        let ended :=
          effect (runFrom 0 p.instrs.toArray 200 0)
            (receiving [none, none, none] [pairIn 0 0, pairIn 1 1])
        ended.1.isOk ∧ ended.2.entryAt 0 1 1 = some 1 ∧
          ended.2.entryAt 0 0 (resultSize * 1 + keepBell) = some 1 ∧
          corrections 1 1 = [.rotation .rotX 1 ⟨16, 4⟩] ∧
          ended.2.events = [.rotation .rotX 0 ⟨16, 4⟩] := by
  decide +kernel

end Session

end QuantumNode
