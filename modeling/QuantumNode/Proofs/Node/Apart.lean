import QuantumNode.Proofs.Node.Ownership

/-
  Whose the blocks of a node are. Each array of an application has a block of its own. A host that
  is shown an array sees a block, which is the one of the array as long as the array is not made
  anew, and never the block of another array.
-/

namespace QuantumNode
open Table Heap MemoryBank Node Nat
variable {arrays : Arrays} {address app : Int} {k n : Nat} {s t : Node}
namespace Heap
variable {h : Heap}

theorem size_set (h : Heap) (n : Nat) (b : Block) : (h.set n b).blocks.size = h.blocks.size := by
  simp [set]

theorem size_alloc (h : Heap) (b : Block) : (h.alloc b).1.blocks.size = h.blocks.size + 1 := by
  simp [alloc]

theorem get_alloc (hInside : n < h.blocks.size) (b : Block) : (h.alloc b).1.get n = h.get n := by
  simp [alloc, get, Array.getElem?_push, Nat.ne_of_lt hInside]

theorem get_alloc_self (h : Heap) (b : Block) : (h.alloc b).1.get (h.alloc b).2 = b := by
  simp [alloc, get]

end Heap

namespace Node

---- Blocks

def owned (s : Node) (app address : Int) : Option Nat :=
  (get? app s.arrays).bind fun arrays => get? address arrays

def shown (s : Node) (k : Nat) (address : Int) : Option Nat := get? address (s.bank.get k).arrays

-- No two arrays have one block. Each registered application has a shared memory of its own, and the
-- block of an array is shown nowhere else than in the memory of its application and at its address.
structure Apart (s : Node) : Prop where
  arrays : Distinct s.arrays
  shared : Distinct s.shared
  ownedInside : ∀ {app address n}, owned s app address = some n → n < s.heap.blocks.size
  shownInside : ∀ {k address n}, shown s k address = some n → n < s.heap.blocks.size
  once : ∀ {app app' address address' n},
      owned s app address = some n → owned s app' address' = some n →
        app = app' ∧ address = address'
  registered : ∀ {app k}, get? app s.shared = some k → s.bank.find? s.name (some app) = some k
  numbered : ∀ {node key k}, s.bank.find? node key = some k → k < s.bank.memories.size
  unique : ∀ {node node' key key' k},
      s.bank.find? node key = some k → s.bank.find? node' key' = some k → node = node' ∧ key = key'
  shownOwn : ∀ {k address app address' n},
      shown s k address = some n → owned s app address' = some n →
        address = address' ∧ s.bank.find? s.name (some app) = some k

theorem owned_put_of_ne (hArrays : get? app s.arrays = some arrays)
    (hPut : t.arrays = put app (put address n arrays) s.arrays)
    (hOther : (app', address') ≠ (app, address)) :
    owned t app' address' = owned s app' address' := by
  rw [owned, hPut, owned]
  by_cases hApp : app' = app
  · subst hApp
    have hAddress : address' ≠ address := fun hSame => hOther (by rw [hSame])
    rw [get?_put_self, hArrays, Option.bind_some, Option.bind_some, get?_put_of_ne hAddress]
  · rw [get?_put_of_ne hApp]

theorem owned_put_self (hPut : t.arrays = put app (put address n arrays) s.arrays) :
    owned t app address = some n := by
  rw [owned, hPut, get?_put_self, Option.bind_some, get?_put_self]

theorem owned_put (hArrays : get? app s.arrays = some arrays)
    (hPut : t.arrays = put app (put address n arrays) s.arrays)
    (hOwned : owned t app' address' = some m) :
    (app' = app ∧ address' = address ∧ m = n) ∨
      ((app', address') ≠ (app, address) ∧ owned s app' address' = some m) := by
  by_cases hHere : (app', address') = (app, address)
  · cases hHere
    rw [owned_put_self hPut] at hOwned
    exact .inl ⟨rfl, rfl, (Option.some.inj hOwned).symm⟩
  · rw [owned_put_of_ne hArrays hPut hHere] at hOwned
    exact .inr ⟨hHere, hOwned⟩

theorem shown_set (hBank : t.bank = s.bank.set k m) (hShown : shown t k' address = some n) :
    (k' = k ∧ get? address m.arrays = some n) ∨ shown s k' address = some n := by
  rw [shown, hBank, get_set] at hShown
  split at hShown
  · rename_i hHere
    exact .inl ⟨hHere.1, hShown⟩
  · exact .inr hShown

namespace Apart
section
variable (hApart : Apart s)
include hApart
theorem mono (hName : t.name = s.name) (hHeap : t.heap.blocks.size = s.heap.blocks.size)
    (hBank : t.bank = s.bank) (hArrays : Distinct t.arrays) (hShared : Distinct t.shared)
    (hOwned : ∀ {app address n}, owned t app address = some n → owned s app address = some n)
    (hRegistered : ∀ {app k}, get? app t.shared = some k → get? app s.shared = some k) :
    Apart t := by
  have hShown : ∀ k address, shown t k address = shown s k address := by
    intro k address
    rw [shown, shown, hBank]
  constructor
  · exact hArrays
  · exact hShared
  · intro app address n hBlock
    rw [hHeap]
    exact hApart.ownedInside (hOwned hBlock)
  · intro k address n hBlock
    rw [hShown] at hBlock
    rw [hHeap]
    exact hApart.shownInside hBlock
  · exact fun hOne hOther => hApart.once (hOwned hOne) (hOwned hOther)
  · intro app k hFound
    rw [hBank, hName]
    exact hApart.registered (hRegistered hFound)
  · rw [hBank]
    exact hApart.numbered
  · rw [hBank]
    exact hApart.unique
  · intro k address app _ n hSeen hBlock
    rw [hShown] at hSeen
    rw [hBank, hName]
    exact hApart.shownOwn hSeen (hOwned hBlock)

theorem congr (hName : t.name = s.name) (hHeap : t.heap.blocks.size = s.heap.blocks.size)
    (hBank : t.bank = s.bank) (hArrays : t.arrays = s.arrays) (hShared : t.shared = s.shared) :
    Apart t := by
  refine hApart.mono hName hHeap hBank (hArrays ▸ hApart.arrays) (hShared ▸ hApart.shared) ?_ ?_
  · intro app _ n hOwned
    rwa [owned, hArrays] at hOwned
  · intro app k hFound
    rwa [hShared] at hFound

theorem create (hArrays : get? app s.arrays = some arrays) :
    Apart { s with
      heap := (s.heap.alloc b).1
      arrays := put app (put address (s.heap.alloc b).2 arrays) s.arrays } := by
  have hSize : (s.heap.alloc b).1.blocks.size = s.heap.blocks.size + 1 := size_alloc _ _
  constructor
  · exact hApart.arrays.put _ _
  · exact hApart.shared
  · intro app' address' n hBlock
    rcases owned_put hArrays rfl hBlock with ⟨_, _, rfl⟩ | ⟨_, hOld⟩
    · exact hSize ▸ lt_succ_self _
    · exact hSize ▸ lt_succ_of_lt (hApart.ownedInside hOld)
  · intro k address' n hSeen
    exact hSize ▸ lt_succ_of_lt (hApart.shownInside hSeen)
  · intro _ _ address₁ address₂ n hOne hOther
    rcases owned_put hArrays rfl hOne with ⟨rfl, rfl, rfl⟩ | ⟨_, hOne⟩
    · rcases owned_put hArrays rfl hOther with ⟨rfl, rfl, _⟩ | ⟨_, hOther⟩
      · exact ⟨rfl, rfl⟩
      · exact absurd (hApart.ownedInside hOther) (Nat.lt_irrefl _)
    · rcases owned_put hArrays rfl hOther with ⟨_, _, rfl⟩ | ⟨_, hOther⟩
      · exact absurd (hApart.ownedInside hOne) (Nat.lt_irrefl _)
      · exact hApart.once hOne hOther
  · exact hApart.registered
  · exact hApart.numbered
  · exact hApart.unique
  · intro k address₁ app' address₂ n hSeen hBlock
    rcases owned_put hArrays rfl hBlock with ⟨_, _, rfl⟩ | ⟨_, hOld⟩
    · exact absurd (hApart.shownInside (s := s) hSeen) (Nat.lt_irrefl _)
    · exact hApart.shownOwn hSeen hOld

-- A memory may show blocks that no other array owns.
theorem shows {m : SharedMemory} {heap : Heap} (hMore : s.heap.blocks.size ≤ heap.blocks.size)
    (hShown : ∀ address n, get? address m.arrays = some n →
        shown s k address = some n ∨ n < heap.blocks.size ∧
          ∀ app address', owned s app address' = some n →
            address = address' ∧ s.bank.find? s.name (some app) = some k) :
    Apart { s with heap := heap, bank := s.bank.set k m } := by
  have hSize : (s.bank.set k m).memories.size = s.bank.memories.size := by simp [MemoryBank.set]
  constructor
  · exact hApart.arrays
  · exact hApart.shared
  · exact fun hBlock => Nat.lt_of_lt_of_le (hApart.ownedInside hBlock) hMore
  · intro k' address n hSeen
    rcases shown_set rfl hSeen with ⟨_, hNew⟩ | hOld
    · rcases hShown address n hNew with hOld | ⟨hInside, _⟩
      · exact Nat.lt_of_lt_of_le (hApart.shownInside hOld) hMore
      · exact hInside
    · exact Nat.lt_of_lt_of_le (hApart.shownInside hOld) hMore
  · exact hApart.once
  · exact hApart.registered
  · exact fun hFound => hSize ▸ hApart.numbered hFound
  · exact hApart.unique
  · intro k' address app address' n hSeen hBlock
    rcases shown_set rfl hSeen with ⟨rfl, hNew⟩ | hOld
    · rcases hShown address n hNew with hOld | ⟨_, hAlone⟩
      · exact hApart.shownOwn hOld hBlock
      · exact hAlone app address' hBlock
    · exact hApart.shownOwn hOld hBlock

theorem change (hChange : Change c s t) : Apart t := by
  cases hChange with
  | aside hAside =>
    exact hApart.congr hAside.name (by rw [hAside.heap]) hAside.bank hAside.arrays hAside.shared
  | write _ _ _ _ => exact hApart.congr rfl (size_set _ _ _) rfl rfl rfl
  | create _ hArrays _ => exact hApart.create hArrays
  | showRegister _ _ _ _ => exact hApart.shows (Nat.le_refl _) fun address n hFound => .inl hFound
  | @showArray app address k m n _ _ hShared hBlock =>
    have hSize : (s.heap.alloc (Block.fresh (s.heap.get m).length)).1.blocks.size =
        s.heap.blocks.size + 1 := size_alloc _ _
    refine hApart.shows (hSize ▸ le_succ _) fun address' m hFound => ?_
    by_cases hHere : address' = address
    · subst hHere
      rw [get?_put_self] at hFound
      cases hFound
      refine .inr ?_
      rcases hBlock with rfl | ⟨arrays, hArrays, hBlock⟩
      · refine ⟨hSize ▸ lt_succ_self _, fun _ _ hOther => ?_⟩
        exact absurd (hApart.ownedInside hOther) (Nat.lt_irrefl _)
      · have hOwn : owned s app address' = some n := by
          rw [owned, hArrays]
          exact hBlock
        refine ⟨hSize ▸ lt_succ_of_lt (hApart.ownedInside hOwn), fun _ _ hOther => ?_⟩
        rcases hApart.once hOwn hOther with ⟨rfl, rfl⟩
        exact ⟨rfl, hApart.registered hShared⟩
    · rw [get?_put_of_ne hHere] at hFound
      exact .inl hFound
  | _ => exact hApart.congr rfl rfl rfl rfl rfl

theorem changes (hChanges : Changes c s t) : Apart t := by
  induction hChanges with
  | refl => exact hApart
  | tail _ hChange ih => exact ih.change hChange

end

---- Applications come and go

theorem fresh (name : String) (id : Int) (flavour : Flavour) (hardware hasStack : Bool) :
    Apart (fresh name id flavour hardware hasStack) where
  arrays := List.nodup_nil
  shared := List.nodup_nil
  ownedInside := by rintro _ _ _ ⟨⟩
  shownInside := by rintro _ _ _ ⟨⟩
  once := by rintro _ _ _ _ _ ⟨⟩
  registered := by rintro _ _ ⟨⟩
  numbered := by rintro _ _ _ ⟨⟩
  unique := by rintro _ _ _ _ _ ⟨⟩
  shownOwn := by rintro _ _ _ _ _ ⟨⟩

theorem register {bank : MemoryBank} (hApart : Apart s)
    (hCreate : s.bank.create s.name (some app) = .ok (bank, k)) :
    Apart { s with bank := bank, shared := put app k s.shared } := by
  have hNew : get? (s.name, some app) s.bank.registry = none ∧ bank = ⟨s.bank.memories.push .empty,
        put (s.name, some app) s.bank.memories.size s.bank.registry⟩ ∧
      k = s.bank.memories.size := by
    rw [create_eq] at hCreate
    split at hCreate
    · rename_i hAbsent
      cases hCreate
      exact ⟨hAbsent, rfl, rfl⟩
    · cases hCreate
  rcases hNew with ⟨hAbsent, rfl, rfl⟩
  have hFind : ∀ {node key k}, get? (node, key) (put (s.name, some app) s.bank.memories.size
        s.bank.registry) = some k →
      ((node, key) = (s.name, some app) ∧ k = s.bank.memories.size) ∨
        s.bank.find? node key = some k := by
    intro node key k hFound
    by_cases hKey : (node, key) = (s.name, some app)
    · rw [hKey, get?_put_self] at hFound
      exact .inl ⟨hKey, (Option.some.inj hFound).symm⟩
    · rw [get?_put_of_ne hKey] at hFound
      exact .inr hFound
  have hKept : ∀ {node key k}, s.bank.find? node key = some k →
      get? (node, key) (put (s.name, some app) s.bank.memories.size
        s.bank.registry) = some k := by
    intro node key k hFound
    have hKey : (node, key) ≠ (s.name, some app) := by
      intro hKey
      rw [find?, hKey, hAbsent] at hFound
      cases hFound
    rw [get?_put_of_ne hKey]
    exact hFound
  constructor
  · exact hApart.arrays
  · exact hApart.shared.put _ _
  · exact hApart.ownedInside
  · intro k address n hSeen
    rw [shown, get_create hCreate] at hSeen
    exact hApart.shownInside hSeen
  · exact hApart.once
  · intro app' k hFound
    by_cases hApp : app' = app
    · subst hApp
      rw [get?_put_self] at hFound
      cases hFound
      exact get?_put_self _ _ _
    · rw [get?_put_of_ne hApp] at hFound
      exact hKept (hApart.registered hFound)
  · intro node key k hFound
    rw [Array.size_push]
    rcases hFind hFound with ⟨_, rfl⟩ | hOld
    · exact lt_succ_self _
    · exact lt_succ_of_lt (hApart.numbered hOld)
  · intro node _ key _ k hOne hOther
    rcases hFind hOne with ⟨hKey, rfl⟩ | hOne
    · rcases hFind hOther with ⟨hKey', _⟩ | hOther
      · exact Prod.mk.inj (hKey.trans hKey'.symm)
      · exact absurd (hApart.numbered hOther) (Nat.lt_irrefl _)
    · rcases hFind hOther with ⟨_, rfl⟩ | hOther
      · exact absurd (hApart.numbered hOne) (Nat.lt_irrefl _)
      · exact hApart.unique hOne hOther
  · intro k address app' _ n hSeen hBlock
    rw [shown, get_create hCreate] at hSeen
    rcases hApart.shownOwn hSeen hBlock with ⟨hAddress, hFound⟩
    exact ⟨hAddress, hKept hFound⟩

-- An application that is set up anew has no arrays.
theorem initApp (hApart : Apart s) (app maxQubits : Int) :
    Apart (effect (initApp app maxQubits) s).2 := by
  have hBare : Apart { s with
      units := put app (Block.fresh maxQubits) s.units
      registers := put app [] s.registers
      arrays := put app [] s.arrays } := by
    refine hApart.mono rfl rfl rfl (hApart.arrays.put _ _) hApart.shared ?_ fun hFound => hFound
    intro app' _ n hOwned
    by_cases hApp : app' = app
    · rw [owned, hApp, get?_put_self] at hOwned
      cases hOwned
    · rwa [owned, get?_put_of_ne hApp] at hOwned
  simp only [Node.initApp, effect_bind, setUnit, effect_modify, effect_get]
  rcases hCreate : s.bank.create s.name (some app) with e | ⟨bank, k⟩
  · exact hBare
  · exact hBare.register hCreate

end Apart

-- Releasing qubits changes which ones are in use and nothing else.
theorem releaseAll_aside (unit : Block) (s : Node) :
    ∃ used, (effect (releaseAll unit) s).2 = { s with used := used } := by
  fun_induction releaseAll unit generalizing s with
  | case1 => exact ⟨s.used, rfl⟩
  | case2 _ ih => exact ih s
  | case3 q _ ih =>
    by_cases hUsed : q ∈ s.used
    · simp only [effect_bind, effect_release hUsed]
      exact ih { s with used := s.used.erase q }
    · have hContains : s.used.contains q = false := by simpa using hUsed
      simp only [effect_bind, release, effect_get, hContains]
      exact ⟨s.used, rfl⟩

-- Stopping an application removes its entries one by one, as far as it gets.
theorem stopApp_shape (app : Int) (s : Node) :
    ∃ units used registers arrays shared,
      (effect (stopApp app) s).2 =
        { s with
          units := units, used := used, registers := registers, arrays := arrays
          shared := shared } ∧
      (registers = s.registers ∨ registers = erase app s.registers) ∧
      (arrays = s.arrays ∨ arrays = erase app s.arrays) ∧
      (shared = s.shared ∨ shared = erase app s.shared) := by
  cases hUnit : get? app s.units with
  | none =>
    simp only [stopApp, effect_bind, effect_get, hUnit]
    exact ⟨_, _, _, _, _, rfl, .inl rfl, .inl rfl, .inl rfl⟩
  | some unit =>
    rcases releaseAll_aside unit { s with units := erase app s.units } with ⟨used, hLeft⟩
    simp only [stopApp, effect_bind, effect_get, hUnit, effect_set]
    rcases hEffect : effect (releaseAll unit) { s with units := erase app s.units } with
      ⟨e | a, t⟩
    all_goals
      rw [hEffect] at hLeft
      subst hLeft
    · exact ⟨_, _, _, _, _, rfl, .inl rfl, .inl rfl, .inl rfl⟩
    · dsimp only
      split
      · exact ⟨_, _, _, _, _, rfl, .inl rfl, .inl rfl, .inl rfl⟩
      · simp only [effect_bind, effect_get, effect_set]
        split
        · exact ⟨_, _, _, _, _, rfl, .inr rfl, .inl rfl, .inl rfl⟩
        · simp only [effect_bind, effect_get, effect_set]
          split
          · exact ⟨_, _, _, _, _, rfl, .inr rfl, .inr rfl, .inl rfl⟩
          · exact ⟨_, _, _, _, _, rfl, .inr rfl, .inr rfl, .inr rfl⟩

namespace Apart

theorem forget (hApart : Apart s) (app : Int) : Apart { s with shared := erase app s.shared } := by
  refine hApart.mono rfl rfl rfl hApart.arrays (hApart.shared.erase _) (fun hOwned => hOwned) ?_
  intro app' k hFound
  by_cases hApp : app' = app
  · rw [hApp, hApart.shared.get?_erase_self] at hFound
    cases hFound
  · rwa [get?_erase_of_ne hApp] at hFound

theorem erase (hApart : Apart s) (app : Int) : Apart { s with arrays := erase app s.arrays } := by
  refine hApart.mono rfl rfl rfl (hApart.arrays.erase _) hApart.shared ?_ fun hFound => hFound
  intro app' _ n hOwned
  by_cases hApp : app' = app
  · rw [owned, hApp, hApart.arrays.get?_erase_self] at hOwned
    cases hOwned
  · rwa [owned, get?_erase_of_ne hApp] at hOwned

theorem stopApp (hApart : Apart s) (app : Int) : Apart (effect (stopApp app) s).2 := by
  rcases stopApp_shape app s with ⟨units, used, registers, _, _, hShape, _, hRest⟩
  have hBase : Apart { s with units := units, used := used, registers := registers } :=
    hApart.congr rfl rfl rfl rfl rfl
  rw [hShape]
  rcases hRest with ⟨rfl | rfl, rfl | rfl⟩
  · exact hBase
  · exact hBase.forget app
  · exact hBase.erase app
  · exact (hBase.erase app).forget app

end Apart

---- Possible states

def Scope.all : Scope where
  acts _ := True
  writes _ _ := True
  creates _ _ := True
  shows := True
  pairs := True

theorem Allows.all (subs : Table Nat (Option Int)) (sub : Nat) (op : Op) (os : List Operand) :
    Allows subs sub Scope.all op os where
  acts _ _ := trivial
  writes _ _ _ _ := trivial
  creates _ _ _ _ := trivial
  shows _ := trivial
  waits _ := ⟨trivial, fun _ _ => trivial⟩

/-
  The states of a node between its steps: applications come and go, subroutines of any applications
  start and end, their instructions are carried out or refused in any order, and responses of any
  kind arrive.
-/
inductive Possible : Node → Prop
  | fresh (name : String) (id : Int) (flavour : Flavour) (hardware hasStack : Bool) :
      Possible (fresh name id flavour hardware hasStack)
  | provided {s : Node} (arrivals : List NewResponse) (outcomes : List Int) (budget : Nat)
      (logger : Logger) :
      Possible s →
      Possible { s with
        arrivals := arrivals, outcomes := outcomes, budget := budget, logger := logger }
  | initApp {s : Node} (app maxQubits : Int) :
      Possible s → Possible (effect (initApp app maxQubits) s).2
  | stopApp {s : Node} (app : Int) : Possible s → Possible (effect (stopApp app) s).2
  | begun {s : Node} (r : Subroutine) : Possible s → Possible (Activity.begun r s)
  | step {s : Node} (sub : Nat) (line : Int) (i : Instr) :
      Possible s → Possible (effect (step sub line i) s).2
  | ended {s : Node} (sub : Nat) :
      Possible s → Possible { s with subroutines := erase sub s.subroutines }
  | arrival {s : Node} (r : NewResponse) : Possible s → Possible (effect (handleResponse r) s).2

namespace Possible

theorem apart (hPossible : Possible s) : Apart s := by
  induction hPossible with
  | fresh name id flavour hardware hasStack => exact Apart.fresh name id flavour hardware hasStack
  | provided _ _ _ _ _ ih | begun _ _ ih | ended _ _ ih => exact ih.congr rfl rfl rfl rfl rfl
  | initApp app maxQubits _ ih => exact ih.initApp app maxQubits
  | stopApp app _ ih => exact ih.stopApp app
  | step sub line i _ ih =>
    exact ih.changes (Within.step (fun _ op os _ _ => Allows.all _ sub op os) line _ rfl).2
  | arrival r _ ih =>
    exact ih.changes (Within.handleResponse (c := Scope.all) trivial (fun _ _ => trivial) r _ rfl).2

theorem lax : Lax fun s t => Possible s → Possible t :=
  ⟨fun _ hPossible => hPossible, fun hFirst hThen hPossible => hThen (hFirst hPossible)⟩

theorem runFrom (hPossible : Possible s)
    (sub : Nat) (is : Array Instr) (limit : Nat) (line : Int) :
    Possible (effect (runFrom sub is limit line) s).2 :=
  lax.runFrom (fun limit s hNow => hNow.provided s.arrivals s.outcomes limit s.logger)
    (fun i _ line _ hNow => hNow.step sub line i) limit line s hPossible

theorem run (hPossible : Possible s) (r : Subroutine) : Possible (effect (run r) s).2 :=
  lax.run (fun hNow => hNow.begun r) (fun _ hNow => hNow.ended _)
    (fun hNow => hNow.runFrom _ _ _ _) hPossible

end Possible

end Node

end QuantumNode
