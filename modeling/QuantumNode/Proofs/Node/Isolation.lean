import QuantumNode.Proofs.Node.HostView

/-
  Applications of a node are isolated: a subroutine of one application that does not wait leaves the
  memories and the qubits of every other one as they are, wherever it stops.
-/

namespace QuantumNode.Node
open Table
variable {s t u : Node} {app other : Int}

-- The registers, the arrays, the shared memory and the unit module of an application are the same
-- in two states. Qubits that it has for itself are in use and its own in both.
structure Untouched (app : Int) (s t : Node) : Prop where
  name : t.name = s.name
  registers : get? app t.registers = get? app s.registers
  arrays : get? app t.arrays = get? app s.arrays
  held : ∀ address, held t app address = held s app address
  shared : get? app t.shared = get? app s.shared
  registry : t.bank.find? s.name (some app) = s.bank.find? s.name (some app)
  memory : ∀ k, s.bank.find? s.name (some app) = some k → t.bank.get k = s.bank.get k
  seen :
    ∀ k, s.bank.find? s.name (some app) = some k → ∀ address, seen t k address = seen s k address
  unit : get? app t.units = get? app s.units
  qubits : ∀ place qubit, Mapped s.units app place qubit → qubit ∈ s.used →
      (∀ app' place', Mapped s.units app' place' qubit → app' = app) →
        qubit ∈ t.used ∧ ∀ app' place', Mapped t.units app' place' qubit → app' = app

theorem mapped_of_unit {units units' : Table Int Block} {place : Nat} {qubit : Int}
    (hUnit : get? app units' = get? app units) :
    Mapped units' app place qubit ↔ Mapped units app place qubit := by
  simp [Mapped, hUnit]

namespace Untouched

theorem trans (hFirst : Untouched app s t) (hThen : Untouched app t u) : Untouched app s u := by
  have hFind : ∀ k, s.bank.find? s.name (some app) = some k →
      t.bank.find? t.name (some app) = some k := by
    intro k hFound
    rw [hFirst.name, hFirst.registry]
    exact hFound
  refine {
    name := hThen.name.trans hFirst.name
    registers := hThen.registers.trans hFirst.registers
    arrays := hThen.arrays.trans hFirst.arrays
    held := fun address => (hThen.held address).trans (hFirst.held address)
    shared := hThen.shared.trans hFirst.shared
    registry := (hFirst.name ▸ hThen.registry).trans hFirst.registry
    memory := fun k hFound => (hThen.memory k (hFind k hFound)).trans (hFirst.memory k hFound)
    seen := fun k hFound address =>
      (hThen.seen k (hFind k hFound) address).trans (hFirst.seen k hFound address)
    unit := hThen.unit.trans hFirst.unit
    qubits := ?_ }
  intro place qubit hMapped hUsed hOnly
  rcases hFirst.qubits place qubit hMapped hUsed hOnly with ⟨hStill, hMine⟩
  exact hThen.qubits place qubit ((mapped_of_unit hFirst.unit).mpr hMapped) hStill hMine

theorem of_aside (hAside : Aside s t) : Untouched app s t := by
  refine {
    name := hAside.name
    registers := by rw [hAside.registers]
    arrays := by rw [hAside.arrays]
    held := fun address => by simp only [Node.held, owned, hAside.arrays, hAside.heap]
    shared := by rw [hAside.shared]
    registry := by rw [hAside.bank]
    memory := fun k _ => by rw [hAside.bank]
    seen := fun k _ address => hAside.seen_eq k address
    unit := by rw [hAside.units]
    qubits := ?_ }
  intro _ _ _ hUsed hOnly
  rw [hAside.used, hAside.units]
  exact ⟨hUsed, hOnly⟩

theorem of_memory {heap : Heap} {bank : MemoryBank} {registers : Table Int Registers}
    {arrays : Table Int Arrays} (hRegisters : get? app registers = get? app s.registers)
    (hArrays : get? app arrays = get? app s.arrays) (hRegistry : bank.registry = s.bank.registry)
    (hMemory : ∀ k, s.bank.find? s.name (some app) = some k → bank.get k = s.bank.get k)
    (hOwned : ∀ address n, owned s app address = some n → heap.get n = s.heap.get n)
    (hShown : ∀ k address n, s.bank.find? s.name (some app) = some k → shown s k address = some n →
        heap.get n = s.heap.get n) :
    Untouched app s { s with
      heap := heap, bank := bank, registers := registers, arrays := arrays } where
  name := rfl
  registers := hRegisters
  arrays := hArrays
  held := by
    intro address
    simp only [Node.held, owned, hArrays]
    exact Option.map_congr fun n hBlock => hOwned address n hBlock
  shared := rfl
  registry := by rw [MemoryBank.find?, MemoryBank.find?, hRegistry]
  memory := hMemory
  seen := by
    intro k hFound address
    simp only [Node.seen, shown, hMemory k hFound]
    exact Option.map_congr fun n hBlock => hShown k address n hFound hBlock
  unit := rfl
  qubits _ _ _ hUsed hOnly := ⟨hUsed, hOnly⟩

theorem of_qubits {units : Table Int Block} {used : List Int}
    (hUnit : get? app units = get? app s.units)
    (hUsed : ∀ place qubit, Mapped s.units app place qubit → qubit ∈ s.used →
        (∀ app' place', Mapped s.units app' place' qubit → app' = app) → qubit ∈ used)
    (hMapped : ∀ place qubit app' place', Mapped s.units app place qubit → qubit ∈ s.used →
        Mapped units app' place' qubit → Mapped s.units app' place' qubit) :
    Untouched app s { s with units := units, used := used } where
  name := rfl
  registers := rfl
  arrays := rfl
  held _ := rfl
  shared := rfl
  registry := rfl
  memory _ _ := rfl
  seen _ _ _ := rfl
  unit := hUnit
  qubits place qubit hMine hNow hOnly := ⟨hUsed place qubit hMine hNow hOnly,
      fun app' place' hThere => hOnly app' place' (hMapped place qubit app' place' hMine hNow hThere)⟩

theorem of_shown {heap : Heap} {k : Nat} {m : SharedMemory} (hApart : Apart s)
    (hOther : other ≠ app) (hShared : get? other s.shared = some k)
    (hHeap : ∀ n, n < s.heap.blocks.size → heap.get n = s.heap.get n) :
    Untouched app s { s with heap := heap, bank := s.bank.set k m } := by
  refine of_memory rfl rfl rfl ?_ (fun _ _ hOwned => hHeap _ (hApart.ownedInside hOwned))
    fun _ _ _ _ hShown => hHeap _ (hApart.shownInside hShown)
  intro k' hFound
  have hNe : k' ≠ k := by
    rintro rfl
    have hSame := (hApart.unique hFound (hApart.registered hShared)).2
    exact hOther (Option.some.inj hSame).symm
  simp [MemoryBank.get_set, hNe]

variable {c : Scope}
  (hApart : Apart s)
  (hActs : ∀ other, c.acts other → other ≠ app)
  (hWrites : ∀ other address, c.writes other address → other ≠ app)
  (hCreates : ∀ other address, c.creates other address → other ≠ app)
  (hPairs : ¬ c.pairs)

include hApart hActs hWrites hCreates hPairs
theorem change (hChange : Change c s t) : Untouched app s t := by
  cases hChange with
  | aside hAside => exact of_aside hAside
  | register hNow =>
    have hOther := (hActs _ hNow).symm
    exact of_memory (get?_put_of_ne hOther _ _) rfl rfl (fun _ _ => rfl)
      (fun _ _ _ => rfl) fun _ _ _ _ _ => rfl
  | @write other address arrays n b hNow hArrays hBlock _ =>
    have hOther := hWrites _ _ hNow
    have hOwn : owned s other address = some n := by
      rw [owned, hArrays]
      exact hBlock
    refine of_memory rfl rfl rfl (fun _ _ => rfl) ?_ ?_
    · intro address' m hOwned
      refine Heap.get_set_of_ne ?_ b
      rintro rfl
      exact hOther (hApart.once hOwn hOwned).1
    · intro k address' m hFound hShown
      refine Heap.get_set_of_ne ?_ b
      rintro rfl
      have hOwner := (hApart.shownOwn hShown hOwn).2
      exact hOther (Option.some.inj (hApart.unique hOwner hFound).2)
  | create hNow hArrays =>
    have hOther := (hCreates _ _ hNow).symm
    exact of_memory rfl (get?_put_of_ne hOther _ _) rfl (fun _ _ => rfl)
      (fun _ _ hOwned => Heap.get_alloc (hApart.ownedInside hOwned) _)
      fun _ _ _ _ hShown => Heap.get_alloc (hApart.shownInside hShown) _
  | showRegister _ hNow hShared _ => exact of_shown hApart (hActs _ hNow) hShared fun _ _ => rfl
  | showArray _ hNow hShared _ =>
    exact of_shown hApart (hActs _ hNow) hShared fun _ hInside => Heap.get_alloc hInside _
  | take hNow hUnit hUnused _ hUsed =>
    refine of_qubits (get?_put_of_ne (hActs _ hNow).symm _ _) (fun _ _ _ hIn _ => hUsed hIn) ?_
    intro place qubit app' place' _ hIn hThere
    rcases mapped_set hUnit hThere with ⟨_, _, ⟨⟩⟩ | ⟨_, hOld⟩
    · exact absurd hIn hUnused
    · exact hOld
  | drop hNow hUnit hHeld hUsed =>
    have hOther := hActs _ hNow
    refine of_qubits (get?_put_of_ne hOther.symm _ _) ?_ ?_
    · intro place qubit _ hIn hOnly
      refine hUsed ((List.mem_erase_of_ne ?_).mpr hIn)
      rintro rfl
      exact hOther (hOnly _ _ ⟨_, hUnit, hHeld⟩)
    · intro place qubit app' place' _ _ hThere
      rcases mapped_set hUnit hThere with ⟨_, _, ⟨⟩⟩ | ⟨_, hOld⟩
      exact hOld
  | deliver hNow => exact absurd hNow hPairs

theorem changes (hChanges : Changes c s t) : Untouched app s t := by
  induction hChanges with
  | refl => exact of_aside (by constructor <;> rfl)
  | tail hBefore hChange ih =>
    exact ih.trans (change (hApart.changes hBefore) hActs hWrites hCreates hPairs hChange)

end Untouched

open Activity

-- Whatever lines that do not wait have come to, they have made allowed changes.
theorem changes_course (hIdle : ∀ i ∈ is, idle sub i = true)
    (hEach : ∀ i ∈ is, ∀ line, Within subs c (step sub line i)) (limit : Nat) (line : Int)
    (hSubs : s.subroutines = subs) (hCourse : Course (.lines sub is limit line, s) (b, t)) :
    Changes c s t := by
  induction limit generalizing line s with
  | zero =>
    rcases Relation.ReflTransGen.cases_head hCourse with hSame | ⟨_, hPart, _⟩
    · cases hSame
      exact .refl
    · cases hPart
  | succ limit ih =>
    rcases Relation.ReflTransGen.cases_head hCourse with hSame | ⟨_, hPart, hRest⟩
    · cases hSame
      exact .refl
    · cases hPart with
      | instr _ hFetch =>
        have hFetched := (Reach.lenient subs c).registers.fetch is line s hSubs
        rw [hFetch] at hFetched
        rcases Relation.ReflTransGen.cases_head hRest with hSame | ⟨_, hPart, _⟩
        · cases hSame
          exact hFetched.2
        · cases hPart with
          | wait hWaits _ =>
            have hNone := hIdle _ (mem_of_fetch hFetch)
            simp [idle, hWaits] at hNone
      | lines _ hFetch hStep =>
        have hFetched := (Reach.lenient subs c).registers.fetch is line s hSubs
        rw [hFetch] at hFetched
        have hStepped := hEach _ (mem_of_fetch hFetch) line _ hFetched.1
        rw [hStep] at hStepped
        exact hFetched.2.trans (hStepped.2.trans (ih _ hStepped.1 hRest))

-- The state in which a subroutine is left, at its end or where it is refused, and every state on
-- the way.
def Passes (r : Subroutine) (s t : Node) : Prop :=
  t = leaves (.run r) s ∨ ∃ b, Course (.run r, s) (b, t)

-- On its way a subroutine that does not wait makes changes of its scope.
theorem changes_passes (hIdle : ∀ i ∈ r.instrs, idle s.nextSubroutine i = true)
    (hPasses : Passes r s t) :
    Changes (Scope.ofCode r.appId s.nextSubroutine r.instrs.toArray) s t := by
  rcases hPasses with rfl | ⟨b, hCourse⟩
  · exact changes_run r s
  · rcases Relation.ReflTransGen.cases_head hCourse with hSame | ⟨_, hPart, hRest⟩
    · cases hSame
      exact .refl
    · cases hPart
      have hBegun : Aside s (begun r s) := by constructor <;> rfl
      refine .head (.aside hBegun) (changes_course (fun i hMember => ?_) (fun i hMember line =>
        Within.ofCode hMember line) _ _ rfl hRest)
      exact hIdle i (List.mem_toArray.mp hMember)

/-
  A subroutine of an application that does not wait leaves every other application as it is, at its
  end, where it is refused, and on the way. In reachable states, each qubit of the other one is in
  use, and nobody else has it.
-/
theorem apps_isolated
    {r : Subroutine}
    {app other : Int}
    (hPossible : Possible s)
    (hApp : r.appId = some app)
    (hOther : other ≠ app)
    (hIdle : ∀ i ∈ r.instrs, idle s.nextSubroutine i = true)
    (hPasses : Passes r s t) :
    Untouched other s t ∧ (Reachable s → ∀ place qubit, Mapped s.units other place qubit →
          Mapped t.units other place qubit ∧ qubit ∈ t.used ∧
            ∀ app' place', Mapped t.units app' place' qubit → app' = other ∧ place' = place) := by
  have hOwner : ∀ app', r.appId = some app' → app' ≠ other := by
    intro app' hSame
    cases hApp.symm.trans hSame
    exact hOther.symm
  have hUntouched : Untouched other s t := by
    refine Untouched.changes hPossible.apart hOwner ?_ ?_ ?_ (changes_passes hIdle hPasses)
    · rintro app' address ⟨⟨family, op, operands, host⟩ | _, hMember, hWrites⟩
      · rcases hWrites with hWritten | hWaits
        · exact hOwner app' hWritten.1
        · have hNone := hIdle _ (List.mem_toArray.mp hMember)
          rw [← isSome_waitsFor? s.nextSubroutine] at hWaits
          rw [idle, ← Option.not_isSome, hWaits] at hNone
          cases hNone
      · exact hWrites.elim
    · rintro app' address ⟨⟨family, op, operands, host⟩ | _, hMember, hMakes⟩
      · exact hOwner app' hMakes.1
      · exact hMakes.elim
    · rintro ⟨i, hMember, hWaits⟩
      rw [hIdle i (List.mem_toArray.mp hMember)] at hWaits
      cases hWaits
  refine ⟨hUntouched, fun hReachable place qubit hMapped => ?_⟩
  have hUnshared := hReachable.unshared
  have hStill := (mapped_of_unit hUntouched.unit).mpr hMapped
  rcases hUntouched.qubits place qubit hMapped (hUnshared.inUse hMapped)
    fun app' place' hThere => (hUnshared.once hThere hMapped).1 with ⟨hUsed, hMine⟩
  refine ⟨hStill, hUsed, fun app' place' hThere => ?_⟩
  have hSame := hMine app' place' hThere
  subst hSame
  exact ⟨rfl, (hUnshared.once ((mapped_of_unit hUntouched.unit).mp hThere) hMapped).2⟩

theorem possible_occupied : Possible occupied :=
  (((Possible.fresh _ _ _ _ _).initApp 0 2).initApp 1 1).run (allocating 1)

-- One application allocates a qubit and asks for a pair; the other one keeps its qubit.
theorem apps_isolated_occupied :
    Possible occupied ∧ Reachable occupied ∧
      Untouched 1 occupied (leaves (.run expecting) occupied) ∧
      Mapped (leaves (.run expecting) occupied).units 0 0 1 ∧
      0 ∈ (leaves (.run expecting) occupied).used ∧
      ∀ app place, Mapped (leaves (.run expecting) occupied).units app place 0 →
        app = 1 ∧ place = 0 := by
  have hOther : (1 : Int) ≠ 0 := by decide
  have hIsolated := apps_isolated (r := expecting) possible_occupied rfl hOther
    (fun i hMember => idle_expecting i (List.mem_toArray.mpr hMember)) (.inl rfl)
  have hQubit := hIsolated.2 reachable_occupied 0 0 ⟨[some 0], by decide +kernel, rfl⟩
  exact ⟨possible_occupied, reachable_occupied, hIsolated.1,
    ⟨[some 1, none], by decide +kernel, rfl⟩, hQubit.2.1, hQubit.2.2⟩

end QuantumNode.Node
