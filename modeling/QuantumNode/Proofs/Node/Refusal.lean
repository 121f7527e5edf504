import QuantumNode.Proofs.Node.Isolation

/-
  On hardware, every value in the memories of a node fits into 32 bits, and an instruction with a
  result that does not is refused. An instruction that is refused changes nothing, unless it was
  carried out and only its entry in the log is refused.
-/

namespace QuantumNode.Node
open Block
variable {app v : Int} {r : Reg} {s t : Node} {sub : Nat} {regs : Registers}

-- All values in registers, in blocks and in what hosts see fit into 32 bits.
structure Fitting (s : Node) : Prop where
  registers : ∀ app r v, s.registerOf app r = some v → fits v = true
  blocks : ∀ n, (s.heap.get n).Narrow
  shown : ∀ k r v, (s.bank.get k).registers.value r = some v → fits v = true

theorem narrow_alloc {h : Heap} {size : Int} (hBlocks : ∀ n, (h.get n).Narrow)
    (hSize : Block.fits size = true) (n : Nat) : ((h.alloc (Block.fresh size)).1.get n).Narrow := by
  simp only [Heap.alloc, Heap.get, Array.getD_eq_getD_getElem?, Array.getElem?_push] at hBlocks ⊢
  split
  · refine .fresh ?_
    simp only [fits, Bool.and_eq_true, decide_eq_true_eq] at hSize ⊢
    omega
  · exact hBlocks n

theorem fits_value_put
    (hOld : ∀ r v, regs.value r = some v → fits v = true) (hNew : fits v = true)
    (r' : Reg) (w : Int) (hValue : Registers.value (Table.put r (some v) regs) r' = some w) :
    fits w = true := by
  by_cases hSame : r' = r
  · rw [hSame, Registers.value_put_self] at hValue
    exact Option.some.inj hValue ▸ hNew
  · rw [Registers.value_put_of_ne hSame] at hValue
    exact hOld r' w hValue

namespace Fitting

theorem change {c : Scope} (hFitting : Fitting s) (hOn : s.hardware = true)
    (hChange : Change c s t) : Fitting t := by
  rcases hFitting with ⟨hRegisters, hBlocks, hShown⟩
  cases hChange with
  | aside hAside =>
    constructor
    · simpa only [registerOf, hAside.registers] using hRegisters
    · simpa only [hAside.heap] using hBlocks
    · simpa only [hAside.bank] using hShown
  | @register app regs r v _ hRegs hFits =>
    refine ⟨fun app' r' w hValue => ?_, hBlocks, hShown⟩
    by_cases hApp : app' = app
    · subst hApp
      rw [registerOf, Table.get?_put_self] at hValue
      refine fits_value_put (fun r v hOld => hRegisters app' r v ?_) (hFits hOn) r' w hValue
      rw [registerOf, hRegs]
      exact hOld
    · rw [registerOf, Table.get?_put_of_ne hApp] at hValue
      exact hRegisters app' r' w hValue
  | @write _ _ _ n b _ _ _ hNarrow =>
    refine ⟨hRegisters, fun m => ?_, hShown⟩
    by_cases hSame : m = n
    · subst hSame
      by_cases hInside : m < s.heap.blocks.size
      · rw [Heap.get_set_self hInside]
        exact hNarrow hOn (hBlocks m)
      · rw [Heap.set, Array.setIfInBounds_eq_of_size_le (by omega)]
        exact hBlocks m
    · rw [Heap.get_set_of_ne hSame]
      exact hBlocks m
  | create _ _ hSize => exact ⟨hRegisters, narrow_alloc hBlocks (hRegisters _ _ _ hSize), hShown⟩
  | showRegister _ _ _ hFits =>
    refine ⟨hRegisters, hBlocks, fun k r w hValue => ?_⟩
    rw [MemoryBank.get_set] at hValue
    split at hValue
    · exact fits_value_put (hShown _) (hFits hOn) r w hValue
    · exact hShown k r w hValue
  | @showArray _ _ _ m _ _ _ _ _ =>
    refine ⟨hRegisters, narrow_alloc hBlocks (hBlocks m).size, fun k r w hValue => ?_⟩
    rw [MemoryBank.get_set] at hValue
    split at hValue
    · exact hShown _ r w hValue
    · exact hShown k r w hValue
  | _ => exact ⟨hRegisters, hBlocks, hShown⟩

theorem mono (hFitting : Fitting s)
    (hRegisters : ∀ app r v, t.registerOf app r = some v → s.registerOf app r = some v)
    (hHeap : t.heap = s.heap) (hBank : ∀ k, t.bank.get k = s.bank.get k) : Fitting t where
  registers app r v hValue := hFitting.registers app r v (hRegisters app r v hValue)
  blocks := hHeap ▸ hFitting.blocks
  shown k r v hValue := hFitting.shown k r v (hBank k ▸ hValue)

end Fitting

-- The registers of each application have one place, and on hardware all values fit.
structure Bounded (s : Node) : Prop where
  distinct : Table.Distinct s.registers
  fitting : s.hardware = true → Fitting s

namespace Bounded

theorem changes (hBounded : Bounded s) (hChanges : Changes c s t) : Bounded t := by
  have hBoth : Bounded t ∧ t.hardware = s.hardware := by
    induction hChanges with
    | refl => exact ⟨hBounded, rfl⟩
    | tail _ hChange ih =>
      rcases ih with ⟨⟨hDistinct, hFitting⟩, hSame⟩
      have hNow := fun hOn => (hFitting hOn).change hOn hChange
      cases hChange with
      | aside hAside =>
        rw [← hAside.hardware] at hSame hNow
        exact ⟨⟨hAside.registers ▸ hDistinct, hNow⟩, hSame⟩
      | register _ _ _ => exact ⟨⟨hDistinct.put _ _, hNow⟩, hSame⟩
      | _ => exact ⟨⟨hDistinct, hNow⟩, hSame⟩
  exact hBoth.1

theorem initApp (hBounded : Bounded s) (app maxQubits : Int) :
    Bounded (effect (initApp app maxQubits) s).2 := by
  have hEmpty : ∀ app' r v, registerOf
      { s with registers := Table.put app [] s.registers } app' r = some v →
        s.registerOf app' r = some v := by
    intro app' r v hValue
    by_cases hApp : app' = app
    · rw [registerOf, hApp, Table.get?_put_self] at hValue
      cases hValue
    · rwa [registerOf, Table.get?_put_of_ne hApp] at hValue
  simp only [Node.initApp, effect_bind, setUnit, effect_modify, effect_get]
  rcases hCreate : s.bank.create s.name (some app) with e | ⟨bank, k⟩
  · exact ⟨hBounded.distinct.put _ _, fun hOn =>
      (hBounded.fitting hOn).mono hEmpty rfl fun _ => rfl⟩
  · exact ⟨hBounded.distinct.put _ _, fun hOn =>
      (hBounded.fitting hOn).mono hEmpty rfl (MemoryBank.get_create hCreate)⟩

theorem stopApp (hBounded : Bounded s) (app : Int) : Bounded (effect (stopApp app) s).2 := by
  rcases stopApp_shape app s with ⟨_, _, _, _, _, hShape, hRegisters, _⟩
  rw [hShape]
  rcases hRegisters with rfl | rfl
  · exact ⟨hBounded.distinct, fun hOn =>
      (hBounded.fitting hOn).mono (fun _ _ _ hValue => hValue) rfl fun _ => rfl⟩
  · refine ⟨hBounded.distinct.erase _, fun hOn =>
      (hBounded.fitting hOn).mono (fun app' r v hValue => ?_) rfl fun _ => rfl⟩
    by_cases hApp : app' = app
    · rw [registerOf, hApp, hBounded.distinct.get?_erase_self] at hValue
      cases hValue
    · rwa [registerOf, Table.get?_erase_of_ne hApp] at hValue

end Bounded

theorem Possible.bounded (hPossible : Possible s) : Bounded s := by
  induction hPossible with
  | fresh _ _ _ _ _ =>
    refine ⟨List.nodup_nil, fun _ => ⟨?_, fun n => ?_, fun k r v hValue => ?_⟩⟩
    · rintro _ _ _ ⟨⟩
    · exact (.fresh rfl : (Block.fresh 0).Narrow)
    · cases hValue
  | initApp app maxQubits _ ih => exact ih.initApp app maxQubits
  | stopApp app _ ih => exact ih.stopApp app
  | step sub line i _ ih =>
    exact ih.changes (Within.step (fun _ op os _ _ => Allows.all _ sub op os) line _ rfl).2
  | arrival r _ ih =>
    exact ih.changes (Within.handleResponse (c := Scope.all) trivial (fun _ _ => trivial) r _ rfl).2
  | provided _ _ _ _ _ ih | begun _ _ ih | ended _ _ ih =>
    exact ih.changes (c := Scope.all) (.single (.aside (by constructor <;> rfl)))

-- The value that an instruction gives to a register: a number of the instruction, a sum or
-- difference, or an outcome. Any other value is a remainder or is copied.
inductive Yields (s : Node) (app : Int) : Op → List Operand → Reg → Int → Prop
  | set {r : Reg} {n : Operand} {v : Int} : n.number? = some v → Yields s app .set [.reg r, n] r v
  | lea {r : Reg} {a : Int} : Yields s app .lea [.reg r, .addr a] r a
  | sum {op : Op} {r : Reg} {a b : Operand} {x y v : Int} :
      op = .add ∨ op = .sub → compute op x y none = .ok v →
      effect (ofRegister app a) s = (.ok (some x), s) →
      effect (ofRegister app b) s = (.ok (some y), s) → Yields s app op [.reg r, a, b] r v
  | meas {q : Operand} {r : Reg} {x : Int} : effect (ofRegister app q) s = (.ok (some x), s) →
      Yields s app .meas [q, .reg r] r (s.outcomes.headD 0)

theorem setReg_overflow (hOn : s.hardware = true)
    (hRegs : Table.get? app s.registers = some regs) (hPlace : Registers.checkPlace r = .ok ())
    (hWide : fits v = false) :
    effect (setReg app r v) s = (.error (.node (.tooWide v)), s) := by
  simp only [setReg, regsOf, effect_bind, effect_get, hRegs, effect_pure, Registers.set_eq, hPlace,
    hOn, checkWidth, hWide]
  rfl

-- A result that does not fit is refused, and nothing is stored.
theorem Yields.refused (hYields : Yields s app op os r v)
    (hApp : Table.get? sub s.subroutines = some (some app)) (hOn : s.hardware = true)
    (hRegs : Table.get? app s.registers = some regs) (hPlace : Registers.checkPlace r = .ok ())
    (hWide : fits v = false) (family : Family) :
    ∃ events outcomes, effect (perform sub family op os) s =
      (.error (.node (.tooWide v)), { s with events := events, outcomes := outcomes }) := by
  have hSet := setReg_overflow hOn hRegs hPlace hWide
  cases hYields with
  | set hNumber =>
    refine ⟨s.events, s.outcomes, ?_⟩
    simp only [perform, performWith, effect_bind, effect_appOf hApp, numberOf, hNumber, effect_lift,
      hSet]
  | lea =>
    refine ⟨s.events, s.outcomes, ?_⟩
    simp only [perform, performWith, effect_bind, effect_appOf hApp, hSet]
  | sum hOp hCompute hFirst hSecond =>
    refine ⟨s.events, s.outcomes, ?_⟩
    rcases hOp with rfl | rfl <;>
      simp only [perform, performWith, arithmetic, checkModulus, effect_bind, effect_appOf hApp,
        effect_lift, hFirst, hSecond, hCompute, hSet]
  | @meas _ _ x hQubit =>
    refine ⟨s.events ++ [.measured x (s.outcomes.headD 0)], s.outcomes.tail, ?_⟩
    have hNext : effect nextOutcome s =
        (.ok (s.outcomes.headD 0), { s with outcomes := s.outcomes.tail }) := by
      simp only [nextOutcome, effect_get_bind]
      cases hOutcomes : s.outcomes with
      | nil =>
        have hSame : s = { s with outcomes := [] } := by rw [← hOutcomes]
        exact Prod.ext rfl hSame
      | cons v rest => rfl
    have hLater := setReg_overflow (s := { s with
      events := s.events ++ [.measured x (s.outcomes.headD 0)], outcomes := s.outcomes.tail })
      hOn hRegs hPlace hWide
    simp only [perform, performWith, measure, demandValue, effect_bind, effect_appOf hApp, hQubit,
      effect_pure, hNext, emit, effect_modify, hLater]

/-
  On hardware all values in memories fit into 32 bits, whatever the node is told and whatever
  arrives. An instruction with a result that does not fit is refused for its width, and memories,
  qubits and requests are left as they are.
-/
theorem hardware_fits
    (hPossible : Possible s)
    (hOn : s.hardware = true) :
    Fitting s ∧ ∀ sub app regs line family op operands host r v,
        Table.get? sub s.subroutines = some (some app) →
        Table.get? app s.registers = some regs → Registers.checkPlace r = .ok () →
        Yields s app op operands r v → Block.fits v = false →
          ∃ events outcomes, effect (step sub line (.op family op operands host)) s =
            (.error (.node (.tooWide v)), { s with events := events, outcomes := outcomes }) := by
  refine ⟨hPossible.bounded.fitting hOn, ?_⟩
  intro sub app regs line family op operands host r v hApp hRegs hPlace hYields hWide
  rcases hYields.refused hApp hOn hRegs hPlace hWide family with ⟨events, outcomes, hRefused⟩
  refine ⟨events, outcomes, step_refused ?_ hRefused⟩
  cases hYields with
  | sum hOp _ _ _ => rcases hOp with rfl | rfl <;> rfl
  | _ => rfl

-- A node on hardware whose application has the largest value in a register.
def brimful : Node :=
  (effect (step 0 0 (core .set [register .r 0, .int 2147483647])) (Activity.begun (allocating 0)
      (effect (initApp 0 1) (Node.fresh "alice" 0 .vanilla true true)).2)).2

-- The largest value is kept and not doubled.
theorem hardware_fits_brimful :
    Possible brimful ∧ brimful.hardware = true ∧ Fitting brimful ∧
      brimful.registerOf 0 ⟨.r, 0⟩ = some 2147483647 ∧
      (effect (step 0 1 (core .add [register .r 1, register .r 0, register .r 0])) brimful).1 =
        .error (.node (.tooWide 4294967294)) := by
  have hPossible : Possible brimful := (((Possible.fresh _ _ _ _ _).initApp 0 1).begun _).step 0 0 _
  have hFits := hardware_fits hPossible rfl
  refine ⟨hPossible, rfl, hFits.1, by decide +kernel, ?_⟩
  have hSum : Yields brimful 0 .add [register .r 1, register .r 0, register .r 0] ⟨.r, 1⟩
      4294967294 := .sum (.inl rfl) rfl rfl rfl
  rcases hFits.2 0 0 _ 1 .core _ _ none _ _ rfl rfl rfl hSum (by decide) with ⟨_, _, hWide⟩
  exact congrArg Prod.fst hWide

---- Refused instructions

open Activity
variable {α : Type} {i : Instr} {line : Int}

-- Only what is reported and which outcomes are to come may differ.
def Besides (s t : Node) : Prop :=
  ∃ events outcomes, t = { s with events := events, outcomes := outcomes }

theorem Besides.lax : Lax Besides where
  refl s := ⟨s.events, s.outcomes, rfl⟩
  trans := by
    rintro s _ _ ⟨_, _, rfl⟩ ⟨events, outcomes, rfl⟩
    exact ⟨events, outcomes, rfl⟩

-- No qubit is shared, and on hardware all values fit.
structure Sound (s : Node) : Prop where
  unshared : Unshared s
  fitting : s.hardware = true → Fitting s

theorem Sound.besides (hSound : Sound s) (hBesides : Besides s t) : Sound t := by
  rcases hBesides with ⟨events, outcomes, rfl⟩
  refine ⟨hSound.unshared.mono rfl (List.Subset.refl _), fun hOn => ?_⟩
  rcases hSound.fitting hOn with ⟨hRegisters, hBlocks, hShown⟩
  exact ⟨hRegisters, hBlocks, hShown⟩

-- An operation that is refused changes nothing.
def Clean (x : NodeM α) : Prop := ∀ s, Sound s → ∀ e t, effect x s = (.error e, t) → Besides s t

namespace Clean

theorem modify (g : Node → Node) : Clean (modify g) := by rintro s _ e t ⟨⟩

theorem get (hThen : ∀ s, Clean (f s)) : Clean (get >>= f) := fun s => hThen s s

theorem of_same
    (hSame : ∀ s, Sound s → (∃ e, effect x s = (.error e, s)) ∨ ∃ a t, effect x s = (.ok a, t)) :
    Clean x := by
  intro s hSound e t hRefused
  rcases hSame s hSound with ⟨_, hSame⟩ | ⟨a, u, hDone⟩
  · cases hSame.symm.trans hRefused
    exact Besides.lax.refl s
  · cases hDone.symm.trans hRefused

-- Operations that look and then change something at once are clean.
theorem ends : Ends (Leads Besides) Clean where
  of hLooks s _ e t hRefused := by
    have hHere := hLooks s
    rwa [hRefused] at hHere
  bind {_ _ x f} hLooks hThen s hSound e t hRefused := by
    have hHere := hLooks s
    rw [effect_bind] at hRefused
    rcases hEffect : effect x s with ⟨e' | a, u⟩
    all_goals rw [hEffect] at hHere hRefused
    · cases hRefused
      exact hHere
    · exact Besides.lax.trans hHere (hThen a u (hSound.besides hHere) e t hRefused)
  answer {_ _ x f} hFirst s hSound e t hRefused := by
    rw [effect_bind] at hRefused
    rcases hEffect : effect x s with ⟨e' | a, u⟩
    all_goals rw [hEffect] at hRefused
    · cases hRefused
      exact hFirst s hSound e t hEffect
    · cases hRefused
  pushTask _ _ _ _ := get fun _ => modify _

theorem writes {c : Node → Checked α} {g : Node → α → Node} :
    Clean (do
      let s ← MonadState.get
      let a ← c s
      set (g s a) : NodeM PUnit) := by
  exact get fun _ => ends.bind (Besides.lax.plain.lift _) fun _ => modify _

-- What an instruction that does not wait is made of is clean.
theorem grants {op : Op} {os : List Operand} (hIdle : waits op os = false) :
    Grants (Leads Besides) Clean (fun _ => True) sub op os := by
  have hC := Besides.lax.plain
  exact {
    forApp := fun hThen => ends.bind (hC.appOf sub) fun app => hThen app trivial
    emit := fun e s => ⟨s.events ++ [e], s.outcomes, rfl⟩
    setReg := fun _ _ _ _ => ends.bind (hC.regsOf _) fun _ => get fun _ =>
      ends.bind (hC.lift _) fun _ => modify _
    nextOutcome := fun _ => by
      rw [nextOutcome_eq]
      refine Lax.get fun s => ?_
      cases s.outcomes with
      | nil => exact fun t => Besides.lax.refl t
      | cons v rest => exact fun t => ⟨t.events, rest, rfl⟩
    allocate := fun _ address => of_same fun s _ => by
      rcases allocate_cases sub address none s with ⟨e, hSame⟩ | ⟨_, _, _, qubit, t, hDone, _⟩
      · exact .inl ⟨e, hSame⟩
      · exact .inr ⟨qubit, t, hDone⟩
    free := fun _ address => of_same fun s hSound => by
      rcases hSound.unshared.free_eq sub address with ⟨e, hSame, _⟩ | ⟨t, hDone, _⟩
      · exact .inl ⟨e, hSame⟩
      · exact .inr ⟨⟨⟩, t, hDone⟩
    writeEntry := fun _ a _ i v => ends.bind (hC.evalIndex _ i) fun _ =>
      ends.bind (hC.arraysOf _) fun _ => writes
    createArray := fun _ a _ o => ends.bind (hC.demandValue hC.ofRegister _ o) fun _ =>
      ends.bind (hC.arraysOf _) fun _ => writes
    returnReg := fun _ _ _ _ _ _ => ends.bind (hC.sharedOf _) fun _ => get fun _ =>
      ends.bind (hC.lift _) fun _ => modify _
    returnArray := fun _ app _ a => of_same fun s hSound => by
      rcases returnArray_cases app a s with
        ⟨e, hSame⟩ | ⟨_, n, _, _, _, _, ⟨_, hOn, hWide, _⟩ | hDone⟩
      · exact .inl ⟨e, hSame⟩
      · exact absurd ((hSound.fitting hOn).blocks n) hWide
      · exact .inr ⟨_, _, hDone⟩
    waitUntil := fun hWaits => by
      rw [hIdle] at hWaits
      cases hWaits }

end Clean

-- No instruction changes whether instructions are recorded.
theorem logger_execute (sub : Nat) (line : Int) (i : Instr) :
    Leads (fun s t => t.logger = s.logger) (execute sub line i) := by
  have hR : Lax fun s t : Node => t.logger = s.logger :=
    ⟨fun _ => rfl, fun hFirst hThen => hThen.trans hFirst⟩
  have hQ : QubitTrait (Leads fun s t => t.logger = s.logger) := {
    toPlain := hR.plain.toPlain
    changes := fun hSame _ s => (congrArg Node.logger (hSame s s.veiled) :)
    readsQubits := fun _ => Lax.get
    changesQubits := fun hSame _ s => (congrArg Node.logger (hSame s s.veiled) :) }
  exact Trait.execute hQ {
    toTrait := hQ.toTrait
    readsRegisters := fun _ => Lax.get
    changesRegisters := fun hSame _ s => (congrArg Node.logger (hSame s s.veiled) :) }
    (fun _ _ => rfl) sub line i

/-
  An instruction that does not wait and is refused has changed no memory, no qubit and no request,
  and its subroutine stops at its line. With a log, the instruction may have been carried out, and
  only its entry in the log is refused.
-/
theorem refused_unchanged
    {e : Fault}
    (hPossible : Possible s)
    (hReachable : Reachable s)
    (hIdle : idle sub i = true)
    (hRefused : effect (step sub line i) s = (.error e, t)) :
    (Besides s t ∨
      s.logger ≠ .off ∧ ∃ next output u, effect (execute sub line i) s = (.ok (next, output), u) ∧
        effect (record sub line i output) u = (.error e, t) ∧ Aside u t) ∧
    ∀ instrs limit, ¬ (instrs.size : Int) ≤ line → effect (fetch instrs line) s = (.ok i, s) →
      effect (runFrom sub instrs (limit + 1) line) s =
        (.error (.atLine line e), { t with budget := limit }) := by
  constructor
  · have hGrants : ∀ family op operands host, i = .op family op operands host →
        Grants (Leads Besides) Clean (fun _ => True) sub op operands := by
      rintro family op operands host rfl
      refine Clean.grants ?_
      rw [← isSome_waitsFor? sub]
      simpa [idle] using hIdle
    have hClean := Besides.lax.plain.execute Clean.ends hGrants line
    have hSound : Sound s := ⟨hReachable.unshared, hPossible.bounded.fitting⟩
    have hKept := logger_execute sub line i s
    rw [step, effect_bind] at hRefused
    rcases hExecute : effect (execute sub line i) s with ⟨e' | ⟨next, output⟩, u⟩
    all_goals rw [hExecute] at hRefused hKept
    · cases hRefused
      exact .inl (hClean s hSound e t hExecute)
    · have hAside := Aside.lenient.record sub line i output u
      dsimp only at hRefused hKept
      rw [effect_bind] at hRefused
      rcases hRecord : effect (record sub line i output) u with ⟨e' | _, w⟩
      all_goals rw [hRecord] at hRefused hAside
      · cases hRefused
        refine .inr ⟨fun hOff => ?_, next, output, u, rfl, hRecord, hAside⟩
        rw [record, effect_get_bind, hKept, hOff] at hRecord
        cases hRecord
      · cases hRefused
  · intro instrs limit hInside hFetch
    unfold runFrom
    rw [if_neg hInside, effect_bind, effect_tryCatch, hFetch]
    dsimp only
    rw [effect_bind, effect_tryCatch, hRefused]
    rfl

theorem possible_asking : Possible asking := (possible_occupied.begun expecting).runFrom _ _ _ _

theorem effect_refused (hNone : (effect x s).1.toOption = none) :
    ∃ e, effect x s = (.error e, (effect x s).2) := by
  generalize effect x s = outcome at hNone
  rcases outcome with ⟨e | a, t⟩
  · exact ⟨e, rfl⟩
  · cases hNone

-- A qubit that is allocated is not allocated once more.
theorem refused_unchanged_asking :
    ∃ e t, effect (step 1 12 (core .qalloc [register .q 0])) asking = (.error e, t) ∧
      Besides asking t := by
  rcases effect_refused (x := step 1 12 (core .qalloc [register .q 0])) (s := asking)
    (by decide +kernel) with ⟨e, hRefused⟩
  have hUnchanged := (refused_unchanged possible_asking reachable_asking rfl hRefused).1
  exact ⟨e, _, hRefused, hUnchanged.resolve_right fun hLate => hLate.1 (by decide +kernel)⟩

-- The node that waits for a pair, with a log.
def logged : Node := { asking with logger := .recording }

-- An entry is loaded into the register that indexes it. The log looks for the entry after that, and
-- there is none.
theorem load_refused_late :
    Possible logged ∧ Reachable logged ∧ logged.registerOf 0 ⟨.r, 1⟩ = some 0 ∧
      ∃ e t, effect (step 1 12 (core .load [register .r 1, .entry 0 (.reg ⟨.r, 1⟩)])) logged =
        (.error e, t) ∧ t.registerOf 0 ⟨.r, 1⟩ = some 1 := by
  rcases effect_refused (x := step 1 12 (core .load [register .r 1, .entry 0 (.reg ⟨.r, 1⟩)]))
    (s := logged) (by decide +kernel) with ⟨e, hRefused⟩
  exact ⟨.provided _ _ _ _ possible_asking, .provided _ _ _ _ reachable_asking, by decide +kernel,
    e, _, hRefused, by decide +kernel⟩

end QuantumNode.Node
