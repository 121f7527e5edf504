import QuantumNode.Proofs.Node.Changes

/-
  Whatever a node is told to do, no physical qubit is shared, as long as the network does not
  deliver a pair in a qubit that is in use. Instructions leave registers alone that they do not
  write to, and those that a host was shown and that they do not return.
-/

namespace QuantumNode.Node
open Quiet
variable {a : Activity} {instrs : Array Instr} {i : Instr} {line : Int} {sub : Nat} {s t : Node}
  {α : Type}

---- Activities

-- What a node does: the operations that it is asked for, and what these consist of down to the
-- handling of one response.
inductive Activity
  | initApp (app maxQubits : Int)
  | stopApp (app : Int)
  | run (subroutine : Subroutine)
  | lines (sub : Nat) (instrs : Array Instr) (limit : Nat) (line : Int)
  | instr (sub : Nat) (line : Int) (i : Instr)
  | wait (condition : Condition) (rounds : Nat)
  | await
  | arrival (r : NewResponse)
  | drain (rounds : Nat)
  | first (place : Nat) (responses : List NewResponse)
  | response (place : Nat) (r : Response)

namespace Activity

-- The state that an activity leaves, also where it is refused.
def leaves : Activity → Node → Node
  | .initApp app maxQubits, s => (effect (Node.initApp app maxQubits) s).2
  | .stopApp app, s => (effect (Node.stopApp app) s).2
  | .run subroutine, s => (effect (Node.run subroutine) s).2
  | .lines sub instrs limit line, s => (effect (runFrom sub instrs limit line) s).2
  | .instr sub line i, s => (effect (step sub line i) s).2
  | .wait condition rounds, s => (effect (waitFor condition.ready rounds) s).2
  | .await, s => (effect awaitNetwork s).2
  | .arrival r, s => (effect (handleResponse r) s).2
  | .drain rounds, s => (effect (drainFor rounds) s).2
  | .first place responses, s => (effect (handleFirst place responses) s).2
  | .response place r, s => (effect (handleOne place r) s).2

def begun (r : Subroutine) (s : Node) : Node :=
  { s with
    nextSubroutine := s.nextSubroutine + 1
    subroutines := Table.put s.nextSubroutine r.appId s.subroutines }

-- An activity in a state starts another one in a state.
inductive Part : Activity × Node → Activity × Node → Prop
  | run {r : Subroutine} {s : Node} :
      Part (.run r, s) (.lines s.nextSubroutine r.instrs.toArray s.budget 0, begun r s)
  | instr {sub : Nat} {instrs : Array Instr} {limit : Nat} {line : Int} {i : Instr} {s t : Node} :
      ¬ (instrs.size : Int) ≤ line → effect (fetch instrs line) s = (.ok i, t) →
      Part (.lines sub instrs (limit + 1) line, s) (.instr sub line i, t)
  | lines {sub : Nat} {instrs : Array Instr} {limit : Nat} {line next : Int} {i : Instr}
      {s t u : Node} :
      ¬ (instrs.size : Int) ≤ line → effect (fetch instrs line) s = (.ok i, t) →
      effect (step sub line i) t = (.ok next, u) →
      Part (.lines sub instrs (limit + 1) line, s) (.lines sub instrs limit next, u)
  | wait {sub : Nat} {line : Int} {family : Family} {op : Op} {operands : List Operand}
      {origin : Option HostLine} {c : NodeM Condition} {condition : Condition} {s t : Node} :
      waitsFor? sub op operands = some c → effect c s = (.ok condition, t) →
      Part (.instr sub line (.op family op operands origin), s) (.wait condition (patience t), t)
  | await {condition : Condition} {rounds : Nat} {s t : Node} :
      effect condition.ready s = (.ok false, t) →
      Part (.wait condition (rounds + 1), s) (.await, t)
  | again {condition : Condition} {rounds : Nat} {s t u : Node} :
      effect condition.ready s = (.ok false, t) → effect awaitNetwork t = (.ok ⟨⟩, u) →
      Part (.wait condition (rounds + 1), s) (.wait condition rounds, u)
  | arrival {r : NewResponse} {rest : List NewResponse} {s : Node} : s.arrivals = r :: rest →
      Part (.await, s) (.arrival r, { s with arrivals := rest })
  | retry {s : Node} : s.arrivals = [] → Part (.await, s) (.drain s.pending.length, s)
  | drain {r kept : NewResponse} {s t : Node} : effect (received r) s = (.ok kept, t) →
      Part (.arrival r, s)
        (.drain (t.pending ++ [kept]).length, { t with pending := t.pending ++ [kept] })
  | first {rounds : Nat} {s : Node} : Part (.drain (rounds + 1), s) (.first 0 s.pending, s)
  | more {rounds : Nat} {s t : Node} : effect (handleFirst 0 s.pending) s = (.ok true, t) →
      Part (.drain (rounds + 1), s) (.drain rounds, t)
  | response {place : Nat} {r : Response} {rest : List NewResponse} {s : Node} :
      Part (.first place (.former r :: rest), s) (.response place r, s)
  | next {place : Nat} {r : Response} {rest : List NewResponse} {s t : Node} :
      effect (handleOne place r) s = (.ok false, t) →
      Part (.first place (.former r :: rest), s) (.first (place + 1) rest, t)

-- What is started in the course of an activity, at any depth.
abbrev Course := Relation.ReflTransGen Part

-- A pair that a response delivers into a virtual address is not in a physical qubit that is in use.
def Welcome (place : Nat) (r : Response) (s : Node) : Prop :=
  ∀ k, r = .keep k → (effect (handleOne place r) s).2.units ≠ s.units →
    k.logicalQubit.number ∉ s.used

-- All responses that are handled in the course of an activity are welcome.
def Harmless (a : Activity) (s : Node) : Prop :=
  ∀ place r t, Course (a, s) (.response place r, t) → Welcome place r t

theorem Harmless.part {b : Activity} (hHarmless : Harmless a s) (hPart : Part (a, s) (b, t)) :
    Harmless b t :=
  fun place r u hCourse => hHarmless place r u (.head hPart hCourse)

theorem harmless_of_parts (hHere : ∀ place r, a = .response place r → Welcome place r s)
    (hParts : ∀ q, Part (a, s) q → Harmless q.1 q.2) : Harmless a s := by
  intro place r t hCourse
  rcases Relation.ReflTransGen.cases_head hCourse with hSame | ⟨q, hPart, hRest⟩
  · cases hSame
    exact hHere place r rfl
  · exact hParts q hPart place r t hRest

end Activity

open Activity

-- What the start, the lines and the end of a subroutine lead to, its run leads to.
theorem Lax.run {R : Node → Node → Prop} {r : Subroutine} (hR : Lax R) (hBegun : R s (begun r s))
    (hEnded : ∀ t, R t { t with subroutines := Table.erase s.nextSubroutine t.subroutines })
    (hLines : R (begun r s)
      (effect (Node.runFrom s.nextSubroutine r.instrs.toArray s.budget 0) (begun r s)).2) :
    R s (effect (Node.run r) s).2 := by
  change R s
    (effect (Node.runFrom s.nextSubroutine r.instrs.toArray s.budget 0 >>= _) (begun r s)).2
  rw [effect_bind]
  generalize effect (Node.runFrom s.nextSubroutine r.instrs.toArray s.budget 0) (begun r s) =
    ended at hLines
  rcases ended with ⟨e | _, t⟩
  · exact hR.trans hBegun hLines
  · exact hR.trans (hR.trans hBegun hLines) (hEnded t)

namespace Unshared
section
variable (hUnshared : Unshared s)
include hUnshared
-- A welcome response maps a qubit that was not mapped.
theorem handleOne {place : Nat} {r : Response} (hHarmless : Harmless (.response place r) s) :
    Unshared (effect (handleOne place r) s).2 := by
  have hWelcome := hHarmless place r s .refl
  rcases Takes.handleOne place r s with
    ⟨hUnits, hUsed⟩ | ⟨k, _, _, _, hKeep, hUnit, hUnits, hUsed, hIn⟩
  · exact hUnshared.mono hUnits hUsed
  · by_cases hSame : (effect (Node.handleOne place r) s).2.units = s.units
    · exact hUnshared.mono hSame hUsed
    · have hUnused := hWelcome k hKeep hSame
      exact hUnshared.assign hUnit
        (fun _ _ hMapped => hUnused (hUnshared.inUse hMapped)) hUnits hUsed hIn

theorem handleFirst {place : Nat} {responses : List NewResponse}
    (hHarmless : Harmless (.first place responses) s) :
    Unshared (effect (handleFirst place responses) s).2 := by
  fun_induction Node.handleFirst place responses generalizing s with
  | case2 place r rest ih =>
    refine bind (hUnshared.handleOne (hHarmless.part .response)) fun handled t hOne hNow => ?_
    cases handled with
    | true => exact hNow
    | false => exact ih hNow (hHarmless.part (.next hOne))
  | _ => exact hUnshared

theorem drainFor (hHarmless : Harmless (.drain rounds) s) :
    Unshared (effect (drainFor rounds) s).2 := by
  induction rounds generalizing s with
  | zero => exact hUnshared
  | succ rounds ih =>
    have hFirst := hUnshared.handleFirst (hHarmless.part .first)
    change Unshared (effect (Node.handleFirst 0 s.pending >>= _) s).2
    refine bind hFirst fun handled t hEffect hNow => ?_
    cases handled with
    | true => exact ih hNow (hHarmless.part (.more hEffect))
    | false => exact hNow

theorem handleResponse (hHarmless : Harmless (.arrival r) s) :
    Unshared (effect (handleResponse r) s).2 := by
  refine bind (hUnshared.quiet (trait.received r)) fun _ t hReceived hNow => ?_
  refine drainFor ?_ (hHarmless.part (.drain hReceived))
  exact hNow.mono rfl (List.Subset.refl _)

theorem awaitNetwork (hHarmless : Harmless .await s) : Unshared (effect awaitNetwork s).2 := by
  simp only [Node.awaitNetwork, effect_get_bind]
  cases hArrivals : s.arrivals with
  | cons r rest =>
    refine handleResponse ?_ (hHarmless.part (.arrival hArrivals))
    exact hUnshared.mono rfl (List.Subset.refl _)
  | nil =>
    refine bind (hUnshared.drainFor (hHarmless.part (.retry hArrivals))) fun _ t _ hNow => ?_
    refine hNow.quiet (Quiet.trait.bind Quiet.get fun _ => ?_)
    exact trait.ite (trait.throw _) (trait.pure _)

theorem waitFor (hHarmless : Harmless (.wait condition rounds) s) :
    Unshared (effect (waitFor condition.ready rounds) s).2 := by
  induction rounds generalizing s with
  | zero => exact hUnshared
  | succ rounds ih =>
    refine bind (hUnshared.quiet condition.quiet) fun holds t hReady hNow => ?_
    cases holds with
    | true => exact hNow
    | false =>
      refine bind (hNow.awaitNetwork (hHarmless.part (.await hReady))) fun _ u hAwait hLater => ?_
      exact ih hLater (hHarmless.part (.again hReady hAwait))

-- A change keeps qubits unshared, unless a pair is delivered.
theorem change (hUnpaired : ¬ c.pairs) (hChange : Change c s t) : Unshared t := by
  cases hChange with
  | aside hAside => exact hUnshared.mono hAside.units (hAside.used ▸ List.Subset.refl _)
  | take _ hUnit hUnused hIn hKept =>
    exact hUnshared.assign hUnit (fun _ _ hMapped => hUnused (hUnshared.inUse hMapped)) rfl
      hKept hIn
  | drop _ hUnit hPlace hUsed => exact hUnshared.clear hUnit hPlace rfl hUsed
  | deliver hPairs => exact absurd hPairs hUnpaired
  | _ => exact hUnshared.mono rfl (List.Subset.refl _)

-- What an instruction does that does not wait keeps qubits unshared.
theorem perform (hWaits : waitsFor? sub op os = none) (family : Family) :
    Unshared (effect (perform sub family op os) s).2 := by
  have hAllows : Allows s.subroutines sub
      ⟨fun _ => True, fun _ _ => True, fun _ _ => True, True, False⟩ op os := by
    refine ⟨fun _ _ => trivial, fun _ _ _ _ => trivial, fun _ _ _ _ => trivial, fun _ => trivial,
      fun hWaiting => ?_⟩
    rw [← isSome_waitsFor? sub, hWaits] at hWaiting
    cases hWaiting
  have hChanges :=
    (Within.registers.perform Within.registers.ends (Within.grants hAllows) family s rfl).2
  generalize (effect (Node.perform sub family op os) s).2 = t at hChanges
  induction hChanges with
  | refl => exact hUnshared
  | tail _ hLast ih => exact ih.change (fun hPairs => hPairs) hLast

-- An instruction keeps qubits unshared, also if it waits for pairs.
theorem step (hHarmless : Harmless (.instr sub line i) s) :
    Unshared (effect (step sub line i) s).2 := by
  refine bind ?_ fun _ t _ hNow => hNow.quiet
    (trait.answer (SameQubits.lenient.record sub line i _))
  cases i with
  | note _ => exact hUnshared
  | op family op os origin =>
    simp only [execute]
    split
    · rename_i compared _ _
      refine hUnshared.quiet (trait.bind ?_ fun _ => trait.pure _)
      exact trait.takenWith sub op compared
    · refine bind ?_ fun _ t _ hNow => hNow
      cases hWaits : waitsFor? sub op os with
      | none => exact hUnshared.perform hWaits family
      | some c =>
        rw [perform_waits hWaits]
        refine bind (hUnshared.quiet (waitsFor hWaits)) fun _ t hCondition hNow =>
          bind ?_ fun _ u _ hLater => hLater
        exact waitFor hNow (hHarmless.part (.wait hWaits hCondition))

end

theorem tryCatch (hFirst : Unshared (effect x s).2) (hThen : ∀ e, Quiet (f e)) :
    Unshared (effect (tryCatch x f) s).2 := by
  rw [effect_tryCatch]
  generalize effect x s = outcome at hFirst
  rcases outcome with ⟨e | a, t⟩
  · exact hFirst.quiet (hThen e)
  · exact hFirst

end Unshared

theorem Quiet.giveUp (limit : Nat) (f : Fault) : Quiet (giveUp limit f : NodeM α) :=
  Quiet.trait.bind (Quiet.modify (fun _ => rfl) fun _ => rfl) fun _ => Quiet.trait.throw _

namespace Unshared

theorem runFrom (hUnshared : Unshared s) (hHarmless : Harmless (.lines sub is limit line) s) :
    Unshared (effect (runFrom sub is limit line) s).2 := by
  induction limit generalizing line s with
  | zero =>
    unfold Node.runFrom
    split
    · exact hUnshared.mono rfl (List.Subset.refl _)
    · refine bind (tryCatch (hUnshared.quiet (trait.fetch is line)) fun e =>
        Quiet.giveUp 0 e) fun i t _ hNow => ?_
      exact hNow.quiet (Quiet.giveUp 0 _)
  | succ limit ih =>
    unfold Node.runFrom
    split
    · exact hUnshared.mono rfl (List.Subset.refl _)
    · rename_i hInside
      refine bind (tryCatch (hUnshared.quiet (trait.fetch is line)) fun e =>
        Quiet.giveUp (limit + 1) e) fun i t hCaught hNow => ?_
      have hFetch := effect_of_tryCatch (fun _ _ => ⟨_, _, rfl⟩) hCaught
      refine bind (tryCatch (hNow.step (hHarmless.part (.instr hInside hFetch))) fun e =>
        Quiet.giveUp limit _) fun _ u hTried hLater => ?_
      have hStep := effect_of_tryCatch (fun _ _ => ⟨_, _, rfl⟩) hTried
      exact ih hLater (hHarmless.part (.lines hInside hFetch hStep))

theorem run (hUnshared : Unshared s) (hHarmless : Harmless (.run r) s) :
    Unshared (effect (run r) s).2 := by
  have hLines : Unshared (effect (Node.runFrom s.nextSubroutine r.instrs.toArray s.budget 0)
      (begun r s)).2 :=
    runFrom (hUnshared.mono rfl (List.Subset.refl _)) (hHarmless.part .run)
  change Unshared
    (effect (Node.runFrom s.nextSubroutine r.instrs.toArray s.budget 0 >>= _) (begun r s)).2
  exact bind hLines fun _ t _ hNow => hNow.mono rfl (List.Subset.refl _)

end Unshared

namespace Activity

-- A harmless activity keeps qubits unshared, also if it is refused.
theorem unshared (hUnshared : Unshared s) (hHarmless : Harmless a s) : Unshared (a.leaves s) := by
  cases a with
  | initApp app maxQubits => exact hUnshared.initApp app maxQubits
  | stopApp app => exact hUnshared.stopApp app
  | run subroutine => exact hUnshared.run hHarmless
  | lines sub is limit line => exact hUnshared.runFrom hHarmless
  | instr sub line i => exact hUnshared.step hHarmless
  | wait condition rounds => exact hUnshared.waitFor hHarmless
  | await => exact hUnshared.awaitNetwork hHarmless
  | arrival r => exact hUnshared.handleResponse hHarmless
  | drain rounds => exact hUnshared.drainFor hHarmless
  | first place responses => exact hUnshared.handleFirst hHarmless
  | response place r => exact hUnshared.handleOne hHarmless

theorem unshared_of_effect {x : NodeM α} {a : α} (hLeft : Unshared (effect x s).2)
    (hEffect : effect x s = (.ok a, t)) : Unshared t := by
  rwa [hEffect] at hLeft

theorem Part.unshared {b : Activity} (hPart : Part (a, s) (b, t)) (hUnshared : Unshared s)
    (hHarmless : Harmless a s) : Unshared t := by
  cases hPart with
  | run | arrival _ => exact hUnshared.mono rfl (List.Subset.refl _)
  | instr _ hFetch => exact unshared_of_effect (hUnshared.quiet (trait.fetch _ _)) hFetch
  | lines hInside hFetch hStep =>
    have hFetched := unshared_of_effect (hUnshared.quiet (trait.fetch _ _)) hFetch
    exact unshared_of_effect (hFetched.step (hHarmless.part (.instr hInside hFetch))) hStep
  | wait hWaits hCondition =>
    exact unshared_of_effect (hUnshared.quiet (waitsFor hWaits)) hCondition
  | @await condition _ _ _ hReady =>
    exact unshared_of_effect (hUnshared.quiet condition.quiet) hReady
  | @again condition _ _ _ _ hReady hAwait =>
    have hLooked := unshared_of_effect (hUnshared.quiet condition.quiet) hReady
    exact unshared_of_effect (hLooked.awaitNetwork (hHarmless.part (.await hReady))) hAwait
  | retry _ | first | response => exact hUnshared
  | drain hReceived =>
    have hKept := unshared_of_effect (hUnshared.quiet (trait.received _)) hReceived
    exact hKept.mono rfl (List.Subset.refl _)
  | more hHandled =>
    exact unshared_of_effect (hUnshared.handleFirst (hHarmless.part .first)) hHandled
  | next hOne => exact unshared_of_effect (hUnshared.handleOne (hHarmless.part .response)) hOne

theorem Course.unshared (hCourse : Course p q) (hUnshared : Unshared p.2)
    (hHarmless : Harmless p.1 p.2) : Unshared q.2 := by
  induction hCourse using Relation.ReflTransGen.head_induction_on with
  | refl => exact hUnshared
  | head hPart _ ih => exact ih (hPart.unshared hUnshared hHarmless) (hHarmless.part hPart)

theorem harmless_initApp (app maxQubits : Int) (s : Node) : Harmless (.initApp app maxQubits) s :=
  harmless_of_parts (by rintro _ _ ⟨⟩) (by rintro _ ⟨⟩)

def idle (sub : Nat) : Instr → Bool
  | .op _ op operands _ => (waitsFor? sub op operands).isNone
  | .note _ => true

-- Lines that do not wait handle no responses.
theorem harmless_lines (hIdle : ∀ i ∈ is, idle sub i = true)
    (limit : Nat) (line : Int) (s : Node) : Harmless (.lines sub is limit line) s := by
  induction limit generalizing line s with
  | zero => exact harmless_of_parts (by rintro _ _ ⟨⟩) (by rintro _ ⟨⟩)
  | succ limit ih =>
    refine harmless_of_parts (by rintro _ _ ⟨⟩) fun _ hPart => ?_
    cases hPart with
    | instr _ hFetch =>
      refine harmless_of_parts (by rintro _ _ ⟨⟩) fun _ hPart => ?_
      cases hPart with
      | wait hWaits _ => simpa [idle, hWaits] using hIdle _ (mem_of_fetch hFetch)
    | lines _ _ _ => exact ih _ _

theorem harmless_run (hIdle : ∀ i ∈ r.instrs.toArray, idle s.nextSubroutine i = true) :
    Harmless (.run r) s := by
  refine harmless_of_parts (by rintro _ _ ⟨⟩) fun _ hPart => ?_
  cases hPart
  exact harmless_lines hIdle _ _ _

theorem harmless_arrival (hPending : s.pending = [])
    (hWelcome : Welcome 0 r { s with pending := [.former r] }) :
    Harmless (.arrival (.former r)) s := by
  have hFirst : Harmless (.first 0 [.former r]) { s with pending := [.former r] } := by
    refine harmless_of_parts (by rintro _ _ ⟨⟩) fun _ hPart => ?_
    cases hPart with
    | response =>
      refine harmless_of_parts ?_ (by rintro _ ⟨⟩)
      rintro _ _ ⟨⟩
      exact hWelcome
    | next _ => exact harmless_of_parts (by rintro _ _ ⟨⟩) (by rintro _ ⟨⟩)
  refine harmless_of_parts (by rintro _ _ ⟨⟩) fun _ hPart => ?_
  cases hPart with
  | drain hReceived =>
    cases hReceived
    rw [hPending]
    refine harmless_of_parts (by rintro _ _ ⟨⟩) fun _ hPart => ?_
    cases hPart with
    | first => exact hFirst
    | more _ => exact harmless_of_parts (by rintro _ _ ⟨⟩) (by rintro _ ⟨⟩)

end Activity

-- The states of a node from its start on: after harmless activities in any order, in the course of
-- them, and with any responses to come, outcomes and numbers of instructions.
inductive Reachable : Node → Prop
  | fresh (name : String) (id : Int) (flavour : Flavour) (hardware hasStack : Bool) :
      Reachable (Node.fresh name id flavour hardware hasStack)
  | provided {s : Node} (arrivals : List NewResponse) (outcomes : List Int) (budget : Nat)
      (logger : Logger) :
      Reachable s →
      Reachable { s with
        arrivals := arrivals, outcomes := outcomes, budget := budget, logger := logger }
  | after {a : Activity} {s : Node} : Reachable s → Harmless a s → Reachable (a.leaves s)
  | during {a b : Activity} {s t : Node} :
      Reachable s → Harmless a s → Course (a, s) (b, t) → Reachable t

theorem Reachable.unshared (hReachable : Reachable s) : Unshared s := by
  induction hReachable with
  | fresh name id flavour hardware hasStack => exact Unshared.fresh name id flavour hardware hasStack
  | provided _ _ _ _ _ ih => exact ih.mono rfl (List.Subset.refl _)
  | after _ hHarmless ih => exact Activity.unshared ih hHarmless
  | during _ hHarmless hCourse ih => exact hCourse.unshared ih hHarmless

/-
  In every reachable state the mapping from virtual addresses to physical qubits is injective over
  all applications and its qubits are in use. So no allocation gives out a mapped qubit, and neither
  freeing a qubit nor stopping an application comes upon a qubit that is not in use.
-/
theorem qubits_unshared
    {s : Node}
    (hReachable : Reachable s) :
    (∀ app app' place place' qubit,
      Mapped s.units app place qubit → Mapped s.units app' place' qubit →
        app = app' ∧ place = place') ∧
    (∀ app place qubit, Mapped s.units app place qubit → qubit ∈ s.used) ∧
    (∀ sub address qubit t, effect (allocate sub address none) s = (.ok qubit, t) →
      ∀ app place, ¬ Mapped s.units app place qubit) ∧
    (∀ sub address, (effect (free sub address) s).1 ≠ .error .noKey) ∧
    (∀ app unit, Table.get? app s.units = some unit →
      (effect (releaseAll unit) { s with units := Table.erase app s.units }).1 = .ok ⟨⟩) := by
  have hUnshared := hReachable.unshared
  refine ⟨fun _ _ _ _ _ => hUnshared.once, fun _ _ _ => hUnshared.inUse, ?_, ?_, ?_⟩
  · intro sub address qubit t hGiven app place hMapped
    rcases allocate_cases sub address none s with
      ⟨e, hRefused⟩ | ⟨app', unit, place', q, u, hDone, _, _, _, hAsked | hFound⟩
    · rw [hRefused] at hGiven
      cases hGiven
    · exact absurd hAsked.1 (by simp)
    · rw [hDone] at hGiven
      cases hGiven
      exact hFound.2.1 (hUnshared.inUse hMapped)
  · intro sub address
    rcases hUnshared.free_eq sub address with ⟨e, hRefused, hKey⟩ | ⟨t, hDone, _⟩
    · rw [hRefused]
      exact fun hSame => hKey (Except.error.inj hSame)
    · rw [hDone]
      rintro ⟨⟩
  · intro app unit hUnit
    rw [hUnshared.effect_releaseAll hUnit]

---- A pair for a node with two applications

def register (bank : Bank) (index : Int) : Operand := .reg ⟨bank, index⟩

def allocating (app : Int) : Subroutine := ⟨none, some app, [], [
  core .set [register .q 0, .int 0],
  core .qalloc [register .q 0]]⟩

-- A subroutine that allocates its first qubit and expects a pair in its second one.
def expecting : Subroutine :=
  { allocating 0 with
    instrs := (allocating 0).instrs ++ [core .set [register .r 4, .int 1],
      core .array [register .r 4, .addr 0],
      core .store [register .r 4, .entry 0 (.int 0)],
      core .set [register .r 5, .int 10],
      core .array [register .r 5, .addr 1],
      core .set [register .r 0, .int 1],
      core .set [register .r 1, .int 0],
      core .set [register .r 2, .int 0],
      core .set [register .r 3, .int 1],
      core .recvEpr [register .r 0, register .r 1, register .r 2, register .r 3]] }

def pairIn (qubit : Int) : Response := .keep (keptIn qubit)

-- Two applications, the second of which has allocated a qubit.
def occupied : Node :=
  Activity.leaves (.run (allocating 1)) (Activity.leaves (.initApp 1 1)
      (Activity.leaves (.initApp 0 2) (Node.fresh "alice" 0 .vanilla false true)))

-- The first application waits for a pair at the end of its subroutine.
def asking : Node :=
  Activity.leaves (.lines occupied.nextSubroutine expecting.instrs.toArray occupied.budget 0)
    (begun expecting occupied)

def delivered : Node := Activity.leaves (.arrival (.former (pairIn 7))) asking

theorem reachable_occupied : Reachable occupied :=
  .after (.after (.after (.fresh _ _ _ _ _) (harmless_initApp _ _ _)) (harmless_initApp _ _ _))
    (harmless_run (by decide +kernel))

theorem idle_expecting : ∀ i ∈ expecting.instrs.toArray, idle occupied.nextSubroutine i = true := by
  decide +kernel

theorem reachable_asking : Reachable asking :=
  .after (.during reachable_occupied (harmless_run idle_expecting) (.single .run))
    (harmless_lines idle_expecting _ _ _)

theorem reachable_delivered : Reachable delivered :=
  .after reachable_asking (harmless_arrival (by decide +kernel) fun k hKeep _ => by
      cases hKeep
      decide +kernel)

-- The qubit of a pair belongs to one address next to allocated ones.
theorem qubits_unshared_delivered :
    Reachable delivered ∧
      Mapped delivered.units 1 0 0 ∧
      Mapped delivered.units 0 0 1 ∧
      Mapped delivered.units 0 1 7 ∧
      ∀ app place, Mapped delivered.units app place 7 → app = 0 ∧ place = 1 := by
  have hPair : Mapped delivered.units 0 1 7 := ⟨[some 1, some 7], by decide +kernel, rfl⟩
  refine ⟨reachable_delivered, ⟨[some 0], by decide +kernel, rfl⟩,
    ⟨[some 1, some 7], by decide +kernel, rfl⟩, hPair, ?_⟩
  intro app place hMapped
  exact (qubits_unshared reachable_delivered).1 app 0 place 1 7 hMapped hPair

---- Spared registers

open Activity
variable {op : Op} {operands : List Operand}

-- What an instruction leaves alone, whether it is refused or not.
structure Spares (op : Op) (operands : List Operand) (s t : Node) : Prop where
  registers : ∀ r, r ∉ Instr.writes (.op .core op operands none) → ∀ app,
      t.registerOf app r = s.registerOf app r
  shown : ∀ r, ¬ (op = .retReg ∧ operands = [.reg r]) → ∀ k,
      (t.bank.get k).registers.value r = (s.bank.get k).registers.value r
  registry : t.bank.registry = s.bank.registry

namespace Spares

theorem of_same (hRegisters : t.registers = s.registers) (hBank : t.bank = s.bank) :
    Spares op os s t := by
  refine ⟨fun r _ _ => ?_, fun r _ k => by rw [hBank], by rw [hBank]⟩
  rw [registerOf, hRegisters]
  rfl

theorem lenient : Lenient (Spares op os) where
  refl _ := of_same rfl rfl
  trans hFirst hThen := {
    registers := fun r hr app => (hThen.registers r hr app).trans (hFirst.registers r hr app)
    shown := fun r hr k => (hThen.shown r hr k).trans (hFirst.shown r hr k)
    registry := hThen.registry.trans hFirst.registry }
  aside _ hAside _ s := of_same (hAside s).registers (hAside s).bank

theorem lax : Lax (Spares op os) := lenient.toLax

theorem qubits : QubitTrait (Leads (Spares op os)) where
  toPlain := lax.plain.toPlain
  changes hSame _ s :=
    of_same (congrArg Node.registers (hSame s s.veiled) :) (congrArg Node.bank (hSame s s.veiled) :)
  readsQubits _ := Lax.get
  changesQubits hSame _ s :=
    of_same (congrArg Node.registers (hSame s s.veiled) :) (congrArg Node.bank (hSame s s.veiled) :)

theorem setReg (hWritten : r ∈ Instr.writes (.op .core op os none)) (app v : Int) :
    Leads (Spares op os) (setReg app r v) := by
  intro s
  simp only [Node.setReg, regsOf, effect_bind, effect_get]
  cases hRegs : Table.get? app s.registers with
  | none => exact lax.refl s
  | some regs =>
    simp only [effect_pure]
    cases hSet : regs.set s.hardware r (some v) with
    | error e => exact lax.refl s
    | ok regs' =>
      rcases Registers.set_ok hSet with ⟨_, rfl⟩
      refine ⟨fun q hq a => ?_, fun _ _ _ => rfl, rfl⟩
      have hOther : q ≠ r := fun hSame => hq (hSame ▸ hWritten)
      by_cases hApp : a = app
      · subst hApp
        simp [registerOf, hRegs, Registers.value_put_of_ne hOther]
      · simp [registerOf, Table.get?_put_of_ne hApp]

theorem returnReg (hReturn : op = .retReg) (hOperand : os = [.reg r]) (app v : Int) :
    Leads (Spares op os) (returnReg app r v) := by
  intro s
  rcases returnReg_cases app r v s with ⟨e, hSame⟩ | ⟨k, _, _, hDone⟩
  · rw [hSame]
    exact lax.refl s
  · rw [hDone]
    refine ⟨fun _ _ _ => rfl, fun q hq n => ?_, rfl⟩
    have hOther : q ≠ r := fun hSame => hq ⟨hReturn, hSame ▸ hOperand⟩
    rw [MemoryBank.get_set]
    split
    · rename_i hHere
      rw [hHere.1]
      exact Registers.value_put_of_ne hOther _ _
    · rfl

theorem returnArray (app address : Int) : Leads (Spares op os) (returnArray app address) := by
  have hShown : ∀ (s : Node) (heap : Heap) (k : Nat) (arrays : Arrays), Spares op os s { s with
      heap := heap, bank := s.bank.set k { s.bank.get k with arrays := arrays } } := by
    refine fun s heap k arrays => ⟨fun _ _ _ => rfl, fun r _ n => ?_, rfl⟩
    rw [MemoryBank.get_set]
    split
    · rename_i hHere
      rw [hHere.1]
    · rfl
  intro s
  rcases returnArray_cases app address s with
    ⟨e, hSame⟩ | ⟨_, n, k, _, _, _, ⟨_, _, _, hHalf⟩ | hDone⟩
  · rw [hSame]
    exact lax.refl s
  · rw [hHalf]
    exact hShown s _ k _
  · rw [hDone]
    exact hShown s _ k _

theorem grants : Grants (Leads (Spares op os)) (Leads (Spares op os)) (fun _ => True)
    sub op os where
  forApp hThen := lax.plain.bind (lax.plain.appOf sub) fun app => hThen app trivial
  emit _ _ := of_same rfl rfl
  setReg _ _ hWritten v := setReg hWritten _ v
  nextOutcome _ := lenient.registers.nextOutcome
  allocate _ address := qubits.allocate sub address none
  free _ := qubits.free sub
  writeEntry _ _ _ i _ := lax.plain.bind (lax.plain.evalIndex _ i) fun _ => qubits.writePlace _ _ _ _
  createArray _ a _ o :=
    lax.plain.bind (lax.plain.demandValue lax.plain.ofRegister _ o) fun _ => qubits.createArray _ a _
  returnReg hReturn _ hOperand _ _ v := returnReg hReturn hOperand _ v
  returnArray _ _ _ a := returnArray _ a
  waitUntil _ _ hReady := qubits.waitUntil hReady

theorem execute (sub : Nat) (line : Int) (family : Family) (host : Option HostLine) :
    Leads (Spares op os) (execute sub line (.op family op os host)) := by
  have hGrants : ∀ family' op' os' host', Instr.op family op os host = .op family' op' os' host' →
      Grants (Leads (Spares op os)) (Leads (Spares op os)) (fun _ => True) sub op' os' := by
    rintro _ _ _ _ ⟨⟩
    exact grants
  exact lax.plain.execute lenient.registers.ends hGrants line

-- What all instructions of a subroutine leave alone, its run leaves alone.
theorem run {R : Node → Node → Prop} (hTrans : ∀ {s t u}, R s t → R t u → R s u)
    (hSame : ∀ {s t : Node}, t.registers = s.registers → t.bank = s.bank → R s t)
    (hEach :
      ∀ family op os host, .op family op os host ∈ p.instrs → ∀ s t,
        Spares op os s t → R s t) : Leads R (run p) := by
  have hR : Lenient R := {
    refl := fun _ => hSame rfl rfl
    trans := hTrans
    aside := fun _ hAside _ s => hSame (hAside s).registers (hAside s).bank }
  refine fun s => hR.run (hSame rfl rfl) (fun _ => hSame rfl rfl) ?_
  refine hR.runFrom (fun _ _ => hSame rfl rfl) (fun i hMember line => ?_) _ _ _
  refine hR.plain.bind ?_ fun _ => hR.plain.answer (hR.record _ line i _)
  cases i with
  | note words => exact hR.plain.throw _
  | op family op os host =>
    exact fun s => hEach family op os host (List.mem_toArray.mp hMember) s _
      (execute _ line family host s)

end Spares

end QuantumNode.Node
