import Mathlib.Logic.Relation
import QuantumNode.Proofs.Node.Responses

/-
  What operations of a node can do to memories and to qubits. Whatever is done consists of a few
  kinds of changes, and a scope says for which applications and to which arrays they are made.
-/

namespace QuantumNode
open Block Checked Table
variable {address app : Int} {sub : Nat}
namespace Block
variable {b values : Block}

-- The entries and the size of a block fit into 32 bits.
structure Narrow (b : Block) : Prop where
  entries : ∀ v ∈ b, ∀ x ∈ v, fits x = true
  size : fits b.length = true

theorem fits_of_checkWidth (hWidth : checkWidth true v = .ok ()) : fits v = true := by
  simpa using demand_ok hWidth

theorem fits_of_checkWidths (hWidths : checkWidths true values = .ok ()) :
    ∀ v ∈ values, ∀ x ∈ v, fits x = true := by
  fun_induction checkWidths true values with
  | case1 => simp
  | case2 _ ih => simpa using ih hWidths
  | case3 _ _ ih =>
    rcases bind_ok hWidths with ⟨_, hHere, hRest⟩
    simpa [fits_of_checkWidth hHere] using ih hRest

theorem Narrow.fresh {size : Int} (hSize : fits size.toNat = true) : Narrow (fresh size) where
  entries v hv x hx := by
    cases List.eq_of_mem_replicate hv
    cases hx
  size := by simpa [Block.fresh] using hSize

theorem Narrow.set {v : Option Int} (hNarrow : b.Narrow) (place : Nat)
    (hNew : ∀ x ∈ v, fits x = true) : Narrow (b.set place v) where
  entries w hw := (List.mem_or_eq_of_mem_set hw).elim (hNarrow.entries w) fun hSame => hSame ▸ hNew
  size := by simpa using hNarrow.size

theorem Narrow.writeMany (hNarrow : b.Narrow) (places : List Nat)
    (hNew : ∀ v ∈ values, ∀ x ∈ v, fits x = true) : Narrow (b.writeMany places values) := by
  fun_induction b.writeMany places values with
  | case1 b place places v values ih =>
    rw [List.forall_mem_cons] at hNew
    exact ih (hNarrow.set place hNew.1) hNew.2
  | case2 => exact hNarrow

end Block

namespace Arrays
variable {hardware : Bool} {heap heap' : Heap} {arrays : Arrays}

theorem block_ok (hBlock : block arrays address = .ok n) : get? address arrays = some n := by
  unfold block at hBlock
  split at hBlock <;> cases hBlock
  assumption

theorem writeAt_block (hWrite : writeAt hardware heap arrays address i v = .ok heap') :
    ∃ n p, get? address arrays = some n ∧ place? (heap.get n).length i = some p ∧
      heap' = heap.set n ((heap.get n).set p v) := by
  rcases bind_ok hWrite with ⟨_, _, hRest⟩
  cases v
  case' some => rcases binds_ok hRest with ⟨_, _, _, _, hRest⟩
  all_goals
    rcases bind_ok (x := block arrays address) hRest with ⟨n, hBlock, hPut⟩
    split at hPut <;> cases hPut
    rcases Option.map_eq_some_iff.mp ‹_› with ⟨p, hPlace, rfl⟩
    exact ⟨n, p, block_ok hBlock, hPlace, rfl⟩

theorem writeAt_ok (hWrite : writeAt hardware heap arrays address i v = .ok heap') :
    ∃ n b, get? address arrays = some n ∧ heap' = heap.set n b ∧
      (hardware = true → (heap.get n).Narrow → b.Narrow) := by
  rcases writeAt_block hWrite with ⟨n, p, hBlock, _, rfl⟩
  refine ⟨n, _, hBlock, rfl, fun hOn hOld => hOld.set p ?_⟩
  rintro w rfl
  rcases bind_ok hWrite with ⟨_, _, hRest⟩
  rcases binds_ok hRest with ⟨_, hWidth, _⟩
  exact fits_of_checkWidth (hOn ▸ hWidth)

theorem writeSlice_ok {slice : Slice} {values : Block}
    (hWrite : writeSlice hardware heap arrays address slice values = .ok heap') :
    ∃ n b, get? address arrays = some n ∧ heap' = heap.set n b ∧
      (hardware = true → (heap.get n).Narrow → b.Narrow) ∧
      (heap.get n).writeSlice slice values = .ok b := by
  rcases binds_ok hWrite with ⟨_, _, _, hRow, hRest⟩
  rcases binds_ok hRest with ⟨_, _, _, _, hRest⟩
  rcases binds_ok hRest with ⟨n, hBlock, b, hMany, ⟨⟩⟩
  refine ⟨n, b, block_ok hBlock, rfl, fun hOn hOld => ?_, hMany⟩
  rcases binds_ok hMany with ⟨places, _, _, _, ⟨⟩⟩
  refine hOld.writeMany places ?_
  rcases bind_ok hRow with ⟨_, hWidths, _⟩
  exact fits_of_checkWidths (hOn ▸ hWidths)

end Arrays

namespace MemoryBank

theorem set_set (b : MemoryBank) (n : Nat) (m m' : SharedMemory) :
    (b.set n m).set n m' = b.set n m' := by
  simp [MemoryBank.set]

end MemoryBank

namespace Node
variable {α : Type} (subs : Table Nat (Option Int)) (c : Scope)

---- Changes

/-
  The changes that are allowed: the applications for which something is done, their arrays that are
  written to and those that are made, whether hosts are shown something, and whether pairs are
  delivered.
-/
structure Scope where
  acts : Int → Prop
  writes : Int → Int → Prop
  creates : Int → Int → Prop
  shows : Prop
  pairs : Prop

inductive Change (c : Scope) : Node → Node → Prop
  | aside {s t : Node} : Aside s t → Change c s t
  | register {s : Node} {app : Int} {regs : Registers} {r : Reg} {v : Int} :
      c.acts app → get? app s.registers = some regs →
      (s.hardware = true → fits v = true) →
      Change c s { s with registers := put app (put r (some v) regs) s.registers }
  | write {s : Node} {app address : Int} {arrays : Arrays} {n : Nat} {b : Block} :
      c.writes app address → get? app s.arrays = some arrays →
      get? address arrays = some n →
      (s.hardware = true → (s.heap.get n).Narrow → b.Narrow) →
      Change c s { s with heap := s.heap.set n b }
  | create {s : Node} {app address size : Int} {arrays : Arrays} {r : Reg} :
      c.creates app address → get? app s.arrays = some arrays →
      s.registerOf app r = some size →
      Change c s { s with
        heap := (s.heap.alloc (Block.fresh size)).1
        arrays := put app (Table.put address (s.heap.alloc (Block.fresh size)).2 arrays) s.arrays }
  | showRegister {s : Node} {app : Int} {k : Nat} {r : Reg} {v : Int} :
      c.shows → c.acts app → get? app s.shared = some k →
      (s.hardware = true → fits v = true) →
      Change c s { s with
        bank := s.bank.set k { s.bank.get k with
          registers := put r (some v) (s.bank.get k).registers } }
  | showArray {s : Node} {app address : Int} {k m n : Nat} :
      c.shows → c.acts app → get? app s.shared = some k →
      (n = s.heap.blocks.size ∨
        ∃ arrays, get? app s.arrays = some arrays ∧ get? address arrays = some n) →
      Change c s { s with
        heap := (s.heap.alloc (Block.fresh (s.heap.get m).length)).1
        bank := s.bank.set k { s.bank.get k with
          arrays := put address n (s.bank.get k).arrays } }
  | take {s : Node} {app : Int} {unit : Block} {place : Nat} {qubit : Int} {used : List Int} :
      c.acts app → get? app s.units = some unit → qubit ∉ s.used → qubit ∈ used →
      s.used ⊆ used →
      Change c s { s with
        units := put app (unit.set place (some qubit)) s.units
        used := used }
  | drop {s : Node} {app : Int} {unit : Block} {place : Nat} {qubit : Int} {used : List Int} :
      c.acts app → get? app s.units = some unit → unit[place]? = some (some qubit) →
      s.used.erase qubit ⊆ used →
      Change c s { s with
        units := put app (unit.set place none) s.units
        used := used }
  | deliver {s : Node} {units : Table Int Block} {used : List Int} :
      c.pairs → units.map Prod.fst = s.units.map Prod.fst →
      Change c s { s with units := units, used := used }

abbrev showRegister (s : Node) (k : Nat) (r : Reg) (v : Int) : Node :=
  { s with bank := s.bank.set k { s.bank.get k with
      registers := put r (some v) (s.bank.get k).registers } }

abbrev showBlock (s : Node) (k : Nat) (address : Int) (n : Nat) (b : Block) : Node :=
  { s with
    heap := (s.heap.alloc b).1
    bank := s.bank.set k { s.bank.get k with arrays := put address n (s.bank.get k).arrays } }

abbrev Changes : Node → Node → Prop := Relation.ReflTransGen (Change c)

-- How a state may become another one: from a state with given subroutines only by changes that are
-- allowed.
def Reach (s t : Node) : Prop := s.subroutines = subs → t.subroutines = subs ∧ Changes c s t

theorem Reach.lenient : Lenient (Reach subs c) where
  refl _ hSubs := ⟨hSubs, .refl⟩
  trans hFirst hThen hSubs :=
    ⟨(hThen (hFirst hSubs).1).1, (hFirst hSubs).2.trans (hThen (hFirst hSubs).1).2⟩
  aside _ hAside hKept s hSubs := ⟨(hKept s).trans hSubs, .single (.aside (hAside s))⟩

-- From states with given subroutines, an operation makes only changes that are allowed, also if it
-- is refused.
def Within (x : NodeM α) : Prop := Leads (Reach subs c) x

variable {subs c}
namespace Within

theorem registers : LookRegisters (Within subs c) := (Reach.lenient subs c).registers

theorem qubits : LookQubits (Within subs c) := (Reach.lenient subs c).qubits

theorem emit (e : Event) : Within subs c (emit e) :=
  fun _ hSubs => ⟨hSubs, .single (.aside (by constructor <;> rfl))⟩

---- Registers and arrays

theorem setReg (hActs : c.acts app) (r : Reg) (v : Int) : Within subs c (setReg app r v) := by
  intro s hSubs
  simp only [Node.setReg, regsOf, effect_bind, effect_get]
  cases hRegs : get? app s.registers with
  | none => exact ⟨hSubs, .refl⟩
  | some regs =>
    simp only [effect_pure]
    cases hSet : regs.set s.hardware r (some v) with
    | error e => exact ⟨hSubs, .refl⟩
    | ok regs' =>
      rcases Registers.set_ok hSet with ⟨hWidth, rfl⟩
      exact ⟨hSubs, .single (.register hActs hRegs fun hOn => fits_of_checkWidth (hOn ▸ hWidth))⟩

end Within

theorem arraysOf_cases (app : Int) (s : Node) :
    (∃ e, effect (arraysOf app) s = (.error e, s)) ∨ ∃ arrays, get? app s.arrays = some arrays ∧
        effect (arraysOf app) s = (.ok arrays, s) := by
  simp only [arraysOf, effect_bind, effect_get]
  split
  · rename_i arrays hArrays
    exact .inr ⟨arrays, hArrays, rfl⟩
  · exact .inl ⟨_, rfl⟩

theorem createArray_cases (app address size : Int) (s : Node) :
    (∃ e, effect (createArray app address size) s = (.error e, s)) ∨
      ∃ arrays, get? app s.arrays = some arrays ∧
        effect (createArray app address size) s = (.ok ⟨⟩, { s with
          heap := (s.heap.alloc (Block.fresh size)).1
          arrays := put app
            (Table.put address (s.heap.alloc (Block.fresh size)).2 arrays) s.arrays }) := by
  unfold createArray
  rcases arraysOf_cases app s with ⟨e, hRefused⟩ | ⟨arrays, hArrays, hFound⟩
  · exact .inl ⟨e, by rw [effect_bind, hRefused]⟩
  · rw [effect_bind, hFound]
    simp only [effect_bind, effect_get, Arrays.create]
    cases checkWidth s.hardware address with
    | error e => exact .inl ⟨e, rfl⟩
    | ok _ => exact .inr ⟨arrays, hArrays, rfl⟩

theorem Within.writeHeap (hWrites : c.writes app address)
    (put : Bool → Heap → Arrays → Checked Heap)
    (hPut : ∀ hardware heap arrays heap', put hardware heap arrays = .ok heap' →
      ∃ n b, get? address arrays = some n ∧ heap' = heap.set n b ∧
        (hardware = true → (heap.get n).Narrow → b.Narrow)) :
    Within subs c (do
      let arrays ← Node.arraysOf app
      let s ← get
      let heap ← put s.hardware s.heap arrays
      set { s with heap := heap } : NodeM PUnit) := by
  intro s hSubs
  rcases arraysOf_cases app s with ⟨e, hRefused⟩ | ⟨arrays, hArrays, hFound⟩
  · rw [effect_bind, hRefused]
    exact ⟨hSubs, .refl⟩
  · rw [effect_bind, hFound]
    simp only [effect_bind, effect_get]
    cases hDone : put s.hardware s.heap arrays with
    | error e => exact ⟨hSubs, .refl⟩
    | ok heap =>
      rcases hPut _ _ _ _ hDone with ⟨n, b, hBlock, rfl, hNarrow⟩
      exact ⟨hSubs, .single (.write hWrites hArrays hBlock hNarrow)⟩

namespace Within

theorem writeEntry (hWrites : c.writes app address) (i : Index) (v : Option Int) :
    Within subs c (writeEntry app address i v) :=
  registers.bind (registers.evalIndex app i) fun place =>
    writeHeap hWrites (fun hardware heap arrays => Arrays.writeAt hardware heap arrays address place v)
      fun _ _ _ _ => Arrays.writeAt_ok

theorem writeSlice (hWrites : c.writes app address) (slice : Slice) (values : Block) :
    Within subs c (writeSlice app address slice values) :=
  writeHeap hWrites
    (fun hardware heap arrays => Arrays.writeSlice hardware heap arrays address slice values)
    fun _ _ _ _ hDone => by
      rcases Arrays.writeSlice_ok hDone with ⟨n, b, hBlock, hHeap, hNarrow, _⟩
      exact ⟨n, b, hBlock, hHeap, hNarrow⟩

theorem createArray (hCreates : c.creates app address) (o : Operand) :
    Within subs c (do createArray app address (← demandValue ofRegister app o) : NodeM Unit) := by
  refine (Reach.lenient subs c).bind_from
    (registers.demandValue registers.ofRegister app o) fun s size t hSize _ => ?_
  rcases demandValue_ok hSize with ⟨rfl, r, hRegister⟩
  intro hSubs
  rcases createArray_cases app address size t with ⟨e, hRefused⟩ | ⟨_, hArrays, hDone⟩
  · rw [hRefused]
    exact ⟨hSubs, .refl⟩
  · rw [hDone]
    exact ⟨hSubs, .single (.create hCreates hArrays hRegister)⟩

end Within

---- What hosts are shown

theorem returnReg_cases (app : Int) (r : Reg) (v : Int) (s : Node) :
    (∃ e, effect (returnReg app r v) s = (.error e, s)) ∨
      ∃ k, get? app s.shared = some k ∧ (s.hardware = true → fits v = true) ∧
        effect (returnReg app r v) s = (.ok ⟨⟩, s.showRegister k r v) := by
  simp only [returnReg, sharedOf, effect_bind, effect_get]
  cases hShared : get? app s.shared with
  | none => exact .inl ⟨_, rfl⟩
  | some k =>
    simp only [effect_pure, SharedMemory.setRegister, Registers.set_eq]
    cases Registers.checkPlace r with
    | error e => exact .inl ⟨e, rfl⟩
    | ok _ =>
      cases hWidth : checkWidth s.hardware v with
      | error e => exact .inl ⟨e, rfl⟩
      | ok _ => exact .inr ⟨k, rfl, fun hOn => fits_of_checkWidth (hOn ▸ hWidth), rfl⟩

-- An array is shown, or it is refused; on hardware it may be refused after the host has got one
-- without defined entries.
theorem returnArray_cases (app address : Int) (s : Node) :
    (∃ e, effect (returnArray app address) s = (.error e, s)) ∨
      ∃ arrays n k, get? app s.arrays = some arrays ∧ get? address arrays = some n ∧
        get? app s.shared = some k ∧
        ((∃ e, s.hardware = true ∧ ¬ (s.heap.get n).Narrow ∧
          effect (returnArray app address) s = (.error e, s.showBlock k address
            (s.heap.alloc (Block.fresh (s.heap.get n).length)).2
            (Block.fresh (s.heap.get n).length))) ∨
          effect (returnArray app address) s =
            (.ok ⟨⟩, s.showBlock k address n (Block.fresh (s.heap.get n).length))) := by
  unfold returnArray
  rcases arraysOf_cases app s with ⟨e, hRefused⟩ | ⟨arrays, hArrays, hFound⟩
  · exact .inl ⟨e, by rw [effect_bind, hRefused]⟩
  rw [effect_bind, hFound]
  simp only [effect_bind, effect_lift]
  cases hBlock : Arrays.block arrays address with
  | error e => exact .inl ⟨e, rfl⟩
  | ok n =>
    simp only [sharedOf, effect_bind, effect_get]
    cases hShared : get? app s.shared with
    | none => exact .inl ⟨_, rfl⟩
    | some k =>
      simp only [effect_pure, shareBlock, effect_bind, effect_get, Arrays.create]
      cases checkWidth s.hardware address with
      | error e => exact .inl ⟨e, rfl⟩
      | ok _ =>
        refine .inr ⟨arrays, n, k, hArrays, Arrays.block_ok hBlock, rfl, ?_⟩
        cases hRow : checkRow s.hardware (s.heap.get n) with
        | error e =>
          refine .inl ⟨e, ?_, fun hNarrow => ?_, rfl⟩
          · by_contra hOff
            rw [checkRow_ok (fun hOn => absurd hOn hOff) fun hOn => absurd hOn hOff] at hRow
            cases hRow
          · rw [checkRow_ok (fun _ => hNarrow.entries) fun _ => hNarrow.size] at hRow
            cases hRow
        | ok _ =>
          refine .inr ?_
          rw [showBlock, ← MemoryBank.set_set]
          rfl

namespace Within

theorem returnReg (hShows : c.shows) (hActs : c.acts app) (r : Reg) (v : Int) :
    Within subs c (returnReg app r v) := by
  intro s hSubs
  rcases returnReg_cases app r v s with ⟨e, hRefused⟩ | ⟨k, hShared, hFits, hDone⟩
  · rw [hRefused]
    exact ⟨hSubs, .refl⟩
  · rw [hDone]
    exact ⟨hSubs, .single (.showRegister hShows hActs hShared hFits)⟩

theorem returnArray (hShows : c.shows) (hActs : c.acts app) (address : Int) :
    Within subs c (returnArray app address) := by
  intro s hSubs
  rcases returnArray_cases app address s with
    ⟨e, hRefused⟩ | ⟨arrays, n, k, hArrays, hBlock, hShared, ⟨e, _, _, hHalf⟩ | hDone⟩
  · rw [hRefused]
    exact ⟨hSubs, .refl⟩
  · rw [hHalf]
    exact ⟨hSubs, .single (.showArray hShows hActs hShared (.inl rfl))⟩
  · rw [hDone]
    exact ⟨hSubs, .single (.showArray hShows hActs hShared (.inr ⟨arrays, hArrays, hBlock⟩))⟩

-- What is done for a subroutine is done for its application.
theorem forApp (hThen : ∀ app, get? sub subs = some (some app) → Within subs c (f app)) :
    Within subs c (appOf sub >>= f) := by
  intro s hSubs
  rw [effect_bind]
  rcases appOf_cases sub s with ⟨e, hRefused, _⟩ | ⟨app, hFound, hApp⟩
  · rw [hRefused]
    exact ⟨hSubs, .refl⟩
  · rw [hFound]
    exact hThen app (hSubs ▸ hApp) s hSubs

theorem allocate (hActs : ∀ app, get? sub subs = some (some app) → c.acts app)
    (address : Int) : Within subs c (allocate sub address none) := by
  intro s hSubs
  rcases allocate_cases sub address none s with
    ⟨e, hRefused⟩ | ⟨app, _, _, _, t, hDone, hApp, hUnit, hShape, hGiven | hFound⟩
  · rw [hRefused]
    exact ⟨hSubs, .refl⟩
  · exact absurd hGiven.1 (by simp)
  · rcases hFound with ⟨_, hUnused, hKept, hUsed⟩
    rw [hDone, hShape]
    exact ⟨hSubs, .single (.take (hActs app (hSubs ▸ hApp)) hUnit hUnused hUsed hKept)⟩

theorem free (hActs : ∀ app, get? sub subs = some (some app) → c.acts app) (address : Int) :
    Within subs c (free sub address) := by
  intro s hSubs
  rcases free_cases sub address s with
    ⟨e, hRefused, _⟩ | ⟨app, _, _, _, hApp, hUnit, hPlace, hRelease⟩
  · rw [hRefused]
    exact ⟨hSubs, .refl⟩
  · rw [hRelease]
    simp only [release, effect_bind, effect_get]
    split
    · exact ⟨hSubs, .single (.drop (hActs app (hSubs ▸ hApp)) hUnit hPlace (List.Subset.refl _))⟩
    · exact ⟨hSubs, .single (.drop (hActs app (hSubs ▸ hApp)) hUnit hPlace List.erase_subset)⟩

theorem accept (hPairs : c.pairs) (task : PairTask) (pair : Int) (r : Response) :
    Within subs c (accept task pair r) := by
  refine qubits.accept (fun _ _ hSubs => ⟨hSubs, .single (.deliver hPairs rfl)⟩) ?_ task pair r
  intro sub address qubit s hSubs
  rcases allocate_cases sub address (some qubit) s with
    ⟨e, hRefused⟩ | ⟨_, _, _, _, t, hDone, _, hUnit, hShape, _⟩
  · rw [hRefused]
    exact ⟨hSubs, .refl⟩
  · rw [hDone, hShape]
    exact ⟨hSubs, .single (.deliver hPairs (keys_put_of_get? hUnit _))⟩

theorem storeResult (hWrites : ∀ app address, c.writes app address)
    (task : PairTask) (pair : Int) (r : Response) : Within subs c (storeResult task pair r) :=
  registers.bind (registers.appOf _) fun _ => registers.reads (fun _ _ => rfl) fun _ =>
    registers.refuse (writeSlice (hWrites _ _) _ _)

theorem handleResponse (hPairs : c.pairs) (hWrites : ∀ app address, c.writes app address)
    (r : NewResponse) : Within subs c (handleResponse r) :=
  registers.handleResponse (accept hPairs) (storeResult hWrites) r

end Within

---- Instructions

-- A scope that allows what an instruction does.
structure Allows (subs : Table Nat (Option Int)) (sub : Nat) (c : Scope) (op : Op)
    (operands : List Operand) : Prop where
  acts : ∀ app, get? sub subs = some (some app) → c.acts app
  writes : ∀ app, get? sub subs = some (some app) → ∀ a ∈ written op operands, c.writes app a
  creates : ∀ app, get? sub subs = some (some app) → ∀ a ∈ created op operands, c.creates app a
  shows : returns op operands = true → c.shows
  waits : waits op operands = true → c.pairs ∧ ∀ app a, c.writes app a

theorem mem_of_fetch (hFetch : effect (fetch is line) s = (.ok i, t)) : i ∈ is := by
  unfold fetch at hFetch
  split at hFetch
  · rename_i _ hFound
    cases hFetch
    rcases Option.bind_eq_some_iff.mp hFound with ⟨_, _, hPlace⟩
    exact Array.mem_of_getElem? hPlace
  · cases hFetch

-- What each step of a subroutine leads to, all of them lead to.
theorem Lax.runFrom {R : Node → Node → Prop} (hR : Lax R)
    (hBudget : ∀ limit s, R s (withBudget limit s))
    (hEach : ∀ i ∈ is, ∀ line, Leads R (step sub line i)) (limit : Nat) (line : Int) :
    Leads R (runFrom sub is limit line) := by
  have hDone : ∀ limit, Leads R (setBudget limit) := hBudget
  have hGivenUp : ∀ {α : Type} limit f, Leads R (giveUp limit f : NodeM α) := fun limit f =>
    hR.plain.bind (hDone limit) fun _ => hR.plain.throw f
  induction limit generalizing line with
  | zero =>
    refine hR.plain.ite (hDone 0) (hR.plain.bind ?_ fun _ => hGivenUp 0 _)
    exact hR.tryCatch (hR.plain.fetch is line) fun _ => hGivenUp 0 _
  | succ limit ih =>
    refine hR.plain.ite (hDone _) (hR.bind_from ?_ fun s i t hCaught _ => ?_)
    · exact hR.tryCatch (hR.plain.fetch is line) fun _ => hGivenUp _ _
    · have hMember := mem_of_fetch (effect_of_tryCatch (fun _ _ => ⟨_, _, rfl⟩) hCaught)
      have hStep := hR.tryCatch (hEach i hMember line) fun f => hGivenUp limit (.atLine line f)
      exact hR.plain.bind hStep (fun next => ih next) t

namespace Within

-- What an instruction is made of is allowed if the instruction is.
theorem grants (hAllows : Allows subs sub c op os) :
    Grants (Within subs c) (Within subs c) (fun app => get? sub subs = some (some app)) sub op
      os where
  forApp := forApp
  emit := emit
  setReg hApp r _ := setReg (hAllows.acts _ hApp) r
  nextOutcome _ := registers.nextOutcome
  allocate _ := allocate hAllows.acts
  free _ := free hAllows.acts
  writeEntry hApp a hMember := writeEntry (hAllows.writes _ hApp a hMember)
  createArray hApp a hMember := createArray (hAllows.creates _ hApp a hMember)
  returnReg hOp r hOperand _ hApp :=
    returnReg (hAllows.shows (by rw [hOp, hOperand]; rfl)) (hAllows.acts _ hApp) r
  returnArray hReturns _ hApp := returnArray (hAllows.shows hReturns) (hAllows.acts _ hApp)
  waitUntil hWaits _ hReady :=
    registers.waitUntil (accept (hAllows.waits hWaits).1) (storeResult (hAllows.waits hWaits).2)
      hReady

-- An instruction changes what its scope allows, and nothing else.
theorem step
    (hAllows : ∀ family op os host, i = .op family op os host → Allows subs sub c op os)
    (line : Int) : Within subs c (step sub line i) := by
  have hExecute : Within subs c (execute sub line i) := registers.execute registers.ends
      (fun family op os host hOp => grants (hAllows family op os host hOp)) line
  exact registers.bind hExecute fun _ =>
    registers.answer ((Reach.lenient subs c).record sub line i _)

theorem runFrom (hEach : ∀ i ∈ is, ∀ line, Within subs c (Node.step sub line i)) (limit : Nat)
    (line : Int) : Within subs c (runFrom sub is limit line) :=
  (Reach.lenient subs c).runFrom
    (fun _ _ hSubs => ⟨hSubs, .single (.aside (by constructor <;> rfl))⟩) hEach limit line

end Within

end Node

end QuantumNode
