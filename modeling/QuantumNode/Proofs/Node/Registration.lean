import QuantumNode.Proofs.Node.HostView

/-
  The applications of a node. Every table has an entry for each active application, with one
  exception: the name of a shared memory is given away once, so an application that is registered
  again after a stop has none.
-/

open List

namespace QuantumNode.Node
open Activity Table
variable {app maxQubits : Int} {m : HostMessage} {ms : List HostMessage} {s t : Node}
  {c : Activity → Node → Prop}

---- Messages about an application

-- Where messages leave an application: it was never registered, it was registered once and not
-- stopped, it was stopped, or it was registered again after a stop.
inductive Standing
  | unknown
  | current
  | stopped
  | renewed
  deriving DecidableEq

namespace Standing

@[grind =] def registered : Standing → Standing
  | unknown => current
  | current => current
  | stopped => renewed
  | renewed => renewed

@[grind =] def ended : Standing → Standing
  | unknown => unknown
  | _ => stopped

@[grind =] def next (app : Int) (st : Standing) : HostMessage → Standing
  | .initApp other _ => if other = app then st.registered else st
  | .stopApp other => if other = app then st.ended else st
  | _ => st

end Standing

def standing (app : Int) (ms : List HostMessage) : Standing := ms.foldl (Standing.next app) .unknown

@[grind =] theorem standing_concat : standing app (ms ++ [m]) = (standing app ms).next app m := by
  simp [standing]

@[grind .] theorem standing_cases (app : Int) (ms : List HostMessage) :
    standing app ms = .unknown ∨ standing app ms = .current ∨ standing app ms = .stopped ∨
      standing app ms = .renewed := by
  cases standing app ms <;> simp

theorem Standing.foldl_next_eq_unknown_iff (st : Standing) :
    ms.foldl (Standing.next app) st = .unknown ↔ st = .unknown ∧ ∀ n, .initApp app n ∉ ms := by
  induction ms generalizing st with
  | nil => simp
  | cons m ms ih =>
    rw [foldl_cons, ih]
    cases m <;> cases st <;> grind

theorem standing_eq_unknown_iff : standing app ms = .unknown ↔ ∀ n, .initApp app n ∉ ms := by
  simp [standing, Standing.foldl_next_eq_unknown_iff]

---- States after messages

-- The states of a node after messages of its host, whether they are refused or not, with responses
-- of the network in between. A condition may be put on the subroutines and responses.
inductive Handled (c : Activity → Node → Prop) : List HostMessage → Node → Prop
  | fresh (name : String) (id : Int) (flavour : Flavour) (hardware hasStack : Bool) :
      Handled c [] (Node.fresh name id flavour hardware hasStack)
  | provided {ms : List HostMessage} {s : Node} (arrivals : List NewResponse)
      (outcomes : List Int) (budget : Nat) (logger : Logger) :
      Handled c ms s →
      Handled c ms { s with
        arrivals := arrivals, outcomes := outcomes, budget := budget, logger := logger }
  | arrival {ms : List HostMessage} {s : Node} (r : NewResponse) :
      Handled c ms s → c (.arrival r) s → Handled c ms (effect (handleResponse r) s).2
  | message {ms : List HostMessage} {s : Node} (m : HostMessage) : Handled c ms s →
      (∀ payload r, m = .subroutine payload → Subroutine.decode s.flavour payload = .ok r →
        c (.run r) s) →
      Handled c (ms ++ [m]) (effect (deliver m) s).2

def besides : HostMessage → Bool
  | .initApp _ _ => false
  | .stopApp _ => false
  | _ => true

-- The active applications, those that have entries in tables, and the names of shared memories.
def entries (s : Node) : String × List Int × List Int × List Int × List Int × Table Int Nat ×
    Table (String × Option Int) Nat :=
  (s.name, s.active, s.registers.map Prod.fst, s.arrays.map Prod.fst, s.units.map Prod.fst, s.shared,
    s.bank.registry)

theorem entries_change {c : Scope} (hChange : Change c s t) : entries t = entries s := by
  cases hChange with
  | aside hAside =>
    simp only [entries, hAside.name, hAside.active, hAside.registers, hAside.arrays, hAside.units,
      hAside.shared, hAside.bank]
  | register _ hKnown | create _ hKnown | take _ hKnown _ _ _ | drop _ hKnown _ _ =>
    simp only [entries, keys_put_of_get? hKnown]
  | deliver _ hKeys => simp only [entries, hKeys]
  | _ => rfl

theorem entries_changes {c : Scope} (hChanges : Changes c s t) : entries t = entries s := by
  induction hChanges with
  | refl => rfl
  | tail _ hChange ih => exact (entries_change hChange).trans ih

theorem entries_handleResponse (r : NewResponse) (s : Node) :
    entries (effect (handleResponse r) s).2 = entries s :=
  entries_changes (Within.handleResponse (c := Scope.all) trivial (fun _ _ => trivial) r s rfl).2

theorem find?_of_entries (hSame : entries t = entries s) (app : Int) :
    t.bank.find? t.name (some app) = s.bank.find? s.name (some app) := by
  simp only [entries, Prod.mk.injEq] at hSame
  rw [MemoryBank.find?, hSame.1, hSame.2.2.2.2.2.2]
  rfl

theorem aside_openSocket (id remoteNode remoteId : Int) (s : Node) :
    Aside s (effect (openSocket id remoteNode remoteId) s).2 := by
  simp only [openSocket, effect_bind, effect_get]
  split
  · constructor <;> rfl
  · exact Aside.lenient.refl s

theorem aside_signal (code : Int) (s : Node) : Aside s (effect (handle (.signal code)) s).2 := by
  simp only [handle]
  split
  · constructor <;> rfl
  · exact Aside.lenient.refl s

theorem entries_handle (hBesides : besides m = true) (s : Node) :
    entries (effect (handle m) s).2 = entries s := by
  cases m with
  | initApp app maxQubits | stopApp app => cases hBesides
  | openSocket app id remote remoteId fidelity =>
    exact entries_change (c := Scope.all) (.aside (aside_openSocket id remote remoteId s))
  | signal code => exact entries_change (c := Scope.all) (.aside (aside_signal code s))
  | subroutine payload =>
    simp only [handle, effect_bind, effect_get]
    cases Subroutine.decode s.flavour payload with
    | error e => rfl
    | ok r => exact entries_changes (changes_run r s)

-- The state with a new application that has no shared memory yet.
def enrolled (app maxQubits : Int) (s : Node) : Node :=
  { s with
    active := if s.active.contains app then s.active else s.active ++ [app]
    units := put app (Block.fresh maxQubits) s.units
    registers := put app [] s.registers
    arrays := put app [] s.arrays }

-- The state in which the application also has a shared memory.
def remembered (app maxQubits : Int) (s : Node) : Node :=
  { enrolled app maxQubits s with
    bank := {
      memories := s.bank.memories.push .empty
      registry := put (s.name, some app) s.bank.memories.size s.bank.registry }
    shared := put app s.bank.memories.size s.shared }

theorem effect_handle_initApp (app maxQubits : Int) (s : Node) :
    effect (handle (.initApp app maxQubits)) s =
      if s.bank.find? s.name (some app) = none then (.ok ⟨⟩, remembered app maxQubits s)
      else (.error (.node (.memoryExists s.name (toString app))), enrolled app maxQubits s) := by
  simp only [handle, initApp, effect_bind, effect_modify, setUnit, effect_get, MemoryBank.create_eq]
  by_cases hNew : s.bank.find? s.name (some app) = none
  · rw [if_pos hNew, if_pos hNew]
    rfl
  · rw [if_neg hNew, if_neg hNew]
    rfl

theorem effect_handle_stopApp (app : Int) (s : Node) :
    effect (handle (.stopApp app)) s =
      if app ∈ s.active then effect (stopApp app) { s with active := s.active.erase app }
      else (.error .noKey, s) := by
  by_cases hActive : app ∈ s.active
  · have hContains : s.active.contains app = true := by simpa using hActive
    simp only [handle, effect_bind, effect_get, hContains, hActive]
    rfl
  · have hContains : s.active.contains app = false := by simpa using hActive
    simp only [handle, effect_bind, effect_get, hContains, hActive]
    rfl

-- An application with all its entries is stopped as a whole, with its memory or without.
theorem Unshared.stopApp_state (hUnshared : Unshared s) (hUnit : get? app s.units = some unit)
    (hRegisters : has app s.registers = true) (hArrays : has app s.arrays = true) :
    (effect (Node.stopApp app) s).2 = { s with
        units := erase app s.units
        used := (qubitsIn unit).foldl List.erase s.used
        registers := erase app s.registers
        arrays := erase app s.arrays
        shared := erase app s.shared } := by
  simp only [Node.stopApp, effect_bind, effect_get, hUnit, effect_set,
    hUnshared.effect_releaseAll hUnit, hRegisters, Bool.not_true, Bool.false_eq_true, if_false,
    hArrays]
  cases hShared : get? app s.shared with
  | none => simp [has, hShared, erase_of_get? hShared]
  | some k => simp [has, hShared]

---- What messages keep

theorem active_enrolled :
    (enrolled app maxQubits s).active = if app ∈ s.active then s.active else s.active ++ [app] := by
  simp [enrolled]

theorem keys_enrolled {α : Type} {entries : Table Int α} (app maxQubits : Int) (entry : α)
    (hEntries : entries.map Prod.fst = s.active) :
    (put app entry entries).map Prod.fst = (enrolled app maxQubits s).active := by
  rw [active_enrolled, keys_put, hEntries]

theorem mem_active_enrolled (maxQubits : Int) :
    other ∈ (enrolled app maxQubits s).active ↔ other = app ∨ other ∈ s.active := by
  rw [active_enrolled, mem_keep]

-- A message names a shared memory only if it registers an application.
theorem find?_handle (app : Int) (m : HostMessage) (s : Node) :
    (effect (handle m) s).2.bank.find? (effect (handle m) s).2.name (some app) = none ↔
      s.bank.find? s.name (some app) = none ∧ ∀ n, m ≠ .initApp app n := by
  by_cases hBesides : besides m = true
  · rw [find?_of_entries (entries_handle hBesides s)]
    exact (and_iff_left (by rintro n rfl; cases hBesides)).symm
  cases m with
  | initApp other n =>
    rw [effect_handle_initApp]
    split
    · change get? (s.name, some app) (put (s.name, some other) _ _) = none ↔ _
      by_cases hOther : app = other
      · subst hOther
        simp
      · rw [get?_put_of_ne (by simpa using hOther)]
        exact (and_iff_left (by grind)).symm
    · change s.bank.find? s.name (some app) = none ↔ _
      grind
  | stopApp other =>
    rw [effect_handle_stopApp]
    split
    · rcases stopApp_shape other { s with active := s.active.erase other } with
        ⟨_, _, _, _, _, hShape, _⟩
      rw [hShape]
      exact (and_iff_left (by rintro n ⟨⟩)).symm
    · exact (and_iff_left (by rintro n ⟨⟩)).symm
  | _ => exact absurd rfl hBesides

/-
  The active applications are those that the messages tell. The tables of registers, arrays and unit
  modules have entries for them, and that of shared memories for those that were registered once.
-/
structure Tallied (ms : List HostMessage) (s : Node) : Prop where
  active : ∀ app, app ∈ s.active ↔ standing app ms = .current ∨ standing app ms = .renewed
  nodup : s.active.Nodup
  registers : s.registers.map Prod.fst = s.active
  arrays : s.arrays.map Prod.fst = s.active
  units : s.units.map Prod.fst = s.active
  shared : ∀ app, app ∈ s.shared.map Prod.fst ↔ standing app ms = .current
  distinct : Distinct s.shared

namespace Tallied
variable {ms' : List HostMessage}
variable (hTallied : Tallied ms s)
include hTallied
theorem of_same (hSame : entries t = entries s)
    (hStanding : ∀ app, standing app ms' = standing app ms) : Tallied ms' t := by
  simp only [entries, Prod.mk.injEq] at hSame
  rcases hSame with ⟨_, hActive, hRegisters, hArrays, hUnits, hShared, _⟩
  constructor
  · simpa only [hActive, hStanding] using hTallied.active
  · exact hActive ▸ hTallied.nodup
  · rw [hRegisters, hActive, hTallied.registers]
  · rw [hArrays, hActive, hTallied.arrays]
  · rw [hUnits, hActive, hTallied.units]
  · simpa only [hShared, hStanding] using hTallied.shared
  · exact hShared ▸ hTallied.distinct

theorem initApp (hNamed : s.bank.find? s.name (some app) = none ↔ standing app ms = .unknown)
    (maxQubits : Int) :
    Tallied (ms ++ [.initApp app maxQubits]) (effect (handle (.initApp app maxQubits)) s).2 := by
  have hActive : ∀ other, other ∈ (enrolled app maxQubits s).active ↔
      standing other (ms ++ [.initApp app maxQubits]) = .current ∨
        standing other (ms ++ [.initApp app maxQubits]) = .renewed := by
    intro other
    rw [mem_active_enrolled, hTallied.active]
    grind
  have hNodup : (enrolled app maxQubits s).active.Nodup := by
    rw [active_enrolled]
    exact nodup_keep hTallied.nodup app
  have hRegisters := keys_enrolled app maxQubits [] hTallied.registers
  have hArrays := keys_enrolled app maxQubits [] hTallied.arrays
  have hUnits := keys_enrolled app maxQubits (Block.fresh maxQubits) hTallied.units
  rw [effect_handle_initApp]
  split
  · refine ⟨hActive, hNodup, hRegisters, hArrays, hUnits, fun other => ?_,
      hTallied.distinct.put _ _⟩
    change other ∈ (put app _ s.shared).map Prod.fst ↔ _
    rw [keys_put, mem_keep, hTallied.shared]
    grind
  · refine ⟨hActive, hNodup, hRegisters, hArrays, hUnits, fun other => ?_, hTallied.distinct⟩
    change other ∈ s.shared.map Prod.fst ↔ _
    rw [hTallied.shared]
    grind

theorem stopApp (hUnshared : Unshared s) (app : Int) :
    Tallied (ms ++ [.stopApp app]) (effect (handle (.stopApp app)) s).2 := by
  rw [effect_handle_stopApp]
  split
  · rename_i hActive
    have hUnit : has app s.units = true := mem_keys.mp (hTallied.units ▸ hActive)
    rcases Option.isSome_iff_exists.mp hUnit with ⟨_, hUnit⟩
    have hGone : Unshared { s with active := s.active.erase app } :=
      hUnshared.mono rfl (Subset.refl _)
    rw [hGone.stopApp_state hUnit (mem_keys.mp (hTallied.registers ▸ hActive))
      (mem_keys.mp (hTallied.arrays ▸ hActive))]
    refine ⟨fun other => ?_, hTallied.nodup.erase app, ?_, ?_, ?_, fun other => ?_,
      hTallied.distinct.erase app⟩
    · rw [hTallied.nodup.mem_erase_iff, hTallied.active]
      grind
    · exact (keys_erase _ _).trans (by rw [hTallied.registers])
    · exact (keys_erase _ _).trans (by rw [hTallied.arrays])
    · exact (keys_erase _ _).trans (by rw [hTallied.units])
    · rw [keys_erase, Nodup.mem_erase_iff hTallied.distinct, hTallied.shared]
      grind
  · rename_i hInactive
    rw [hTallied.active] at hInactive
    exact hTallied.of_same rfl fun other => by grind

theorem handle (hUnshared : Unshared s)
    (hNamed : ∀ app, s.bank.find? s.name (some app) = none ↔ standing app ms = .unknown)
    (m : HostMessage) : Tallied (ms ++ [m]) (effect (handle m) s).2 := by
  cases m with
  | initApp app maxQubits => exact hTallied.initApp (hNamed app) maxQubits
  | stopApp app => exact hTallied.stopApp hUnshared app
  | _ =>
    refine hTallied.of_same (entries_handle rfl s) fun app => ?_
    rw [standing_concat]
    rfl

end Tallied

---- Whole histories

theorem deliver_shape (m : HostMessage) (s : Node) :
    ∃ stopped, effect (deliver m) s =
      ((effect (handle m) s).1, { (effect (handle m) s).2 with stopped := stopped }) := by
  simp only [deliver, effect_bind, effect_get]
  rcases effect (handle m) s with ⟨e | a, t⟩
  · exact ⟨t.stopped, rfl⟩
  · dsimp only
    split
    · exact ⟨true, rfl⟩
    · exact ⟨t.stopped, rfl⟩

theorem Unshared.aside (hUnshared : Unshared s) (hAside : Aside s t) : Unshared t :=
  hUnshared.mono hAside.units (hAside.used ▸ Subset.refl _)

theorem Unshared.handle (hUnshared : Unshared s)
    (hHarmless :
      ∀ payload r, m = .subroutine payload → Subroutine.decode s.flavour payload = .ok r →
        Harmless (.run r) s) : Unshared (effect (handle m) s).2 := by
  cases m with
  | initApp app maxQubits =>
    have hActive : Unshared (effect (modify fun s => { s with
        active := if s.active.contains app then s.active else s.active ++ [app] }) s).2 :=
      hUnshared.mono rfl (Subset.refl _)
    exact bind hActive fun _ t _ hNow => hNow.initApp app maxQubits
  | stopApp app =>
    rw [effect_handle_stopApp]
    split
    · have hActive : Unshared { s with active := s.active.erase app } :=
        hUnshared.mono rfl (Subset.refl _)
      exact hActive.stopApp app
    · exact hUnshared
  | openSocket app id remote remoteId fidelity =>
    exact hUnshared.aside (aside_openSocket id remote remoteId s)
  | signal code => exact hUnshared.aside (aside_signal code s)
  | subroutine payload =>
    simp only [Node.handle, effect_bind, effect_get]
    cases hDecode : Subroutine.decode s.flavour payload with
    | error e => exact hUnshared
    | ok r => exact hUnshared.run (hHarmless payload r rfl hDecode)

namespace Handled

theorem named (hHandled : Handled c ms s) (app : Int) :
    s.bank.find? s.name (some app) = none ↔ standing app ms = .unknown := by
  rw [standing_eq_unknown_iff]
  induction hHandled with
  | fresh name id flavour hardware hasStack => exact ⟨fun _ _ => not_mem_nil, fun _ => rfl⟩
  | provided arrivals outcomes budget logger _ ih => exact ih
  | @arrival ms s r _ _ ih =>
    rw [find?_of_entries (entries_handleResponse r s)]
    exact ih
  | @message ms s m _ _ ih =>
    rcases deliver_shape m s with ⟨_, hShape⟩
    rw [hShape]
    refine (find?_handle app m s).trans ?_
    rw [ih, ← forall_and]
    simp [ne_comm]

theorem unshared (hHandled : Handled Harmless ms s) : Unshared s := by
  induction hHandled with
  | fresh name id flavour hardware hasStack => exact Unshared.fresh name id flavour hardware hasStack
  | provided arrivals outcomes budget logger _ ih => exact ih.mono rfl (Subset.refl _)
  | arrival r _ hHarmless ih => exact ih.handleResponse hHarmless
  | message m _ hHarmless ih =>
    rcases deliver_shape m _ with ⟨_, hShape⟩
    rw [hShape]
    exact (ih.handle hHarmless).mono rfl (Subset.refl _)

theorem tallied (hHandled : Handled Harmless ms s) : Tallied ms s := by
  induction hHandled with
  | fresh name id flavour hardware hasStack =>
    exact ⟨fun app => by simp [Node.fresh, standing], nodup_nil, rfl, rfl, rfl,
      fun app => by simp [Node.fresh, standing], nodup_nil⟩
  | provided arrivals outcomes budget logger _ ih =>
    exact ih.of_same rfl fun _ => rfl
  | arrival r _ _ ih => exact ih.of_same (entries_handleResponse r _) fun _ => rfl
  | message m hBefore _ ih =>
    rcases deliver_shape m _ with ⟨_, hShape⟩
    rw [hShape]
    exact (ih.handle hBefore.unshared hBefore.named m).of_same rfl fun _ => rfl

end Handled

def told (ms : List HostMessage) : Node :=
  ms.foldl (fun s m => (effect (deliver m) s).2) (Node.fresh "alice" 0 .vanilla false true)

/-
  After messages of the host, refused ones included, exactly the applications that are registered
  are active, and the tables of registers, arrays and unit modules have exactly their entries. A
  shared memory is there for those of them that were never stopped, so that all tables have the same
  entries exactly if no application was registered again.
-/
theorem tables_follow_messages
    {ms : List HostMessage}
    {s : Node}
    (hHandled : Handled Harmless ms s) :
    s.registers.map Prod.fst = s.active ∧ s.arrays.map Prod.fst = s.active ∧
      s.units.map Prod.fst = s.active ∧
      s.active.Nodup ∧
      (∀ app, app ∈ s.active ↔ standing app ms = .current ∨ standing app ms = .renewed) ∧
      (∀ app, app ∈ s.shared.map Prod.fst ↔ standing app ms = .current) ∧
      ((∀ app, app ∈ s.shared.map Prod.fst ↔ app ∈ s.active) ↔
        ∀ app, standing app ms ≠ .renewed) := by
  have hTallied := hHandled.tallied
  refine ⟨hTallied.registers, hTallied.arrays, hTallied.units, hTallied.nodup, hTallied.active,
    hTallied.shared, forall_congr' fun app => ?_⟩
  rw [hTallied.shared, hTallied.active]
  cases standing app ms <;> simp

def allocation : Bytes := [0, 10, 0, 0, 4, 2, 0, 0, 0, 0, 0, 1, 2, 0, 0, 0, 0, 0]

-- Application 0 allocates a qubit, is stopped and registered again.
def renewing : List HostMessage :=
  [.initApp 0 2, .initApp 1 1, .subroutine allocation, .stopApp 0, .initApp 0 2]

theorem decode_allocation :
    Subroutine.decode .vanilla allocation = .ok ⟨some ⟨0, 10⟩, some 0, [], [
        core .set [register .q 0, .imm 0],
        core .qalloc [register .q 0]]⟩ := by
  decide +kernel

theorem handled_renewing : Handled Harmless renewing (told renewing) := by
  refine (((((Handled.fresh _ _ _ _ _).message _ ?_).message _ ?_).message _ ?_).message _
    ?_).message _ ?_
  case refine_3 =>
    rintro payload r ⟨⟩ hDecode
    cases decode_allocation.symm.trans hDecode
    exact harmless_run (by decide +kernel)
  all_goals
    rintro payload r ⟨⟩

-- An application that is registered again has every entry but a shared memory.
theorem tables_follow_messages_renewing :
    Handled Harmless renewing (told renewing) ∧
      (told renewing).registers.map Prod.fst = (told renewing).active ∧
      (told renewing).active = [1, 0] ∧
      (told renewing).shared.map Prod.fst = [1] ∧
      ¬ ∀ app, app ∈ (told renewing).shared.map Prod.fst ↔ app ∈ (told renewing).active := by
  refine ⟨handled_renewing, (tables_follow_messages handled_renewing).1, by decide +kernel,
    by decide +kernel, fun hAll => ?_⟩
  exact (tables_follow_messages handled_renewing).2.2.2.2.2.2.mp hAll 0 (by decide)

-- The third message is refused when all entries but one are made.
theorem entry_missing :
    (told [.initApp 0 2, .stopApp 0, .initApp 0 2]).active = [0] ∧
      (told [.initApp 0 2, .stopApp 0, .initApp 0 2]).registers = [(0, [])] ∧
      (told [.initApp 0 2, .stopApp 0, .initApp 0 2]).shared = [] := by
  decide +kernel

/-
  An application that the host registers always gets its qubits, unallocated, undefined registers
  and no arrays. If it was never registered before, it also gets a new and empty shared memory.
  Otherwise, also after a stop, it is refused and no memory is made for it.
-/
theorem apps_registered_once
    {ms : List HostMessage}
    {s : Node}
    (hHandled : Handled (fun _ _ => True) ms s)
    (app maxQubits : Int) :
    ∃ outcome t, effect (deliver (.initApp app maxQubits)) s = (outcome, t) ∧
      app ∈ t.active ∧
      Table.get? app t.units = some (List.replicate maxQubits.toNat none) ∧
      Table.get? app t.registers = some [] ∧
      Table.get? app t.arrays = some [] ∧
      (outcome = .ok ⟨⟩ ↔ ∀ n, .initApp app n ∉ ms) ∧
      (outcome = .ok ⟨⟩ → ∃ k, Table.get? app t.shared = some k ∧
        t.bank.find? s.name (some app) = some k ∧ t.bank.get k = .empty ∧
        k = s.bank.memories.size) ∧
      (outcome ≠ .ok ⟨⟩ → outcome = .error (.node (.memoryExists s.name (toString app))) ∧
        t.shared = s.shared ∧ t.bank = s.bank) := by
  rcases deliver_shape (.initApp app maxQubits) s with ⟨_, hShape⟩
  refine ⟨_, _, hShape, ?_⟩
  rw [effect_handle_initApp, ← standing_eq_unknown_iff, ← hHandled.named]
  split
  · rename_i hNew
    refine ⟨(mem_active_enrolled maxQubits).mpr (.inl rfl), Table.get?_put_self _ _ _,
      Table.get?_put_self _ _ _, Table.get?_put_self _ _ _, ⟨fun _ => hNew, fun _ => rfl⟩,
      fun _ => ?_, fun hRefused => absurd rfl hRefused⟩
    refine ⟨_, Table.get?_put_self _ _ _, Table.get?_put_self _ _ _, ?_, rfl⟩
    simp [remembered, MemoryBank.get]
  · rename_i hOld
    refine ⟨(mem_active_enrolled maxQubits).mpr (.inl rfl), Table.get?_put_self _ _ _,
      Table.get?_put_self _ _ _, Table.get?_put_self _ _ _,
      ⟨fun hDone => ?_, fun hNew => absurd hNew hOld⟩, ?_, fun _ => ⟨rfl, rfl, rfl⟩⟩
    · cases hDone
    · rintro ⟨⟩

theorem handled_stopped :
    Handled (fun _ _ => True) [.initApp 0 2, .stopApp 0] (told [.initApp 0 2, .stopApp 0]) :=
  ((Handled.fresh _ _ _ _ _).message _ fun _ _ _ _ => trivial).message _ fun _ _ _ _ => trivial

-- After a stop another application can be registered.
theorem apps_registered_once_stopped :
    Handled (fun _ _ => True) [.initApp 0 2, .stopApp 0] (told [.initApp 0 2, .stopApp 0]) ∧
      ∃ t, effect (deliver (.initApp 1 3)) (told [.initApp 0 2, .stopApp 0]) = (.ok ⟨⟩, t) ∧
        Table.get? 1 t.units = some [none, none, none] := by
  rcases apps_registered_once handled_stopped 1 3 with
    ⟨outcome, t, hEffect, _, hUnit, _, _, hDone, _⟩
  have hNew : outcome = .ok ⟨⟩ := hDone.mpr (by simp)
  exact ⟨handled_stopped, t, hNew ▸ hEffect, hUnit⟩

-- A stopped application cannot.
theorem stopped_id_refused :
    0 ∉ (told [.initApp 0 2, .stopApp 0]).active ∧
      (effect (deliver (.initApp 0 2)) (told [.initApp 0 2, .stopApp 0])).1 =
        .error (.node (.memoryExists "alice" "0")) := by
  decide +kernel

end QuantumNode.Node
