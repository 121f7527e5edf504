import QuantumNode.Proofs.Node.Apart

/-
  What hosts read in the memories that a node shares with them. A host is shown the block of an
  array and not a copy, so what it reads follows the array until the array is made anew.
-/

namespace QuantumNode.Node
open Activity MemoryBank Registers Scope Table
variable {address app : Int} {k n sub : Nat} {r : Reg}
variable {s t u : Node} (owner : Option Int)

---- What hosts read

def seen (s : Node) (k : Nat) (address : Int) : Option Block :=
  (shown s k address).map fun n => s.heap.get n

def held (s : Node) (app address : Int) : Option Block :=
  (owned s app address).map fun n => s.heap.get n

-- A shared memory shows an array of an application itself.
def Live (s : Node) (app : Int) (k : Nat) (address : Int) : Prop :=
  ∃ n, owned s app address = some n ∧ shown s k address = some n

theorem Live.seen_eq (hLive : Live s app k address) : seen s k address = held s app address := by
  rcases hLive with ⟨n, hOwned, hShown⟩
  rw [seen, held, hOwned, hShown]

-- Hosts are shown nothing new. What they read changes at most where they are shown an array itself
-- that is written to, and they are shown it until it is made anew.
structure Silent (writes creates : Int → Int → Prop) (s t : Node) : Prop where
  bank : t.bank = s.bank
  seen : ∀ k address, seen t k address = seen s k address ∨
      ∃ app, Live s app k address ∧ writes app address
  begun : ∀ {app k address}, Live t app k address → Live s app k address
  ended : ∀ {app k address}, Live s app k address → Live t app k address ∨ creates app address

namespace Silent
variable {writes creates : Int → Int → Prop}

-- What hosts read depends on blocks and on where they are shown.
theorem of_same (hHeap : t.heap = s.heap) (hBank : t.bank = s.bank)
    (hArrays : t.arrays = s.arrays) : Silent writes creates s t := by
  have hLive : ∀ app k address, Live t app k address ↔ Live s app k address := by
    simp [Live, owned, shown, hBank, hArrays]
  refine ⟨hBank, fun k address => .inl ?_, fun hNow => (hLive _ _ _).mp hNow,
    fun hOld => .inl ((hLive _ _ _).mpr hOld)⟩
  simp [Node.seen, shown, hBank, hHeap]

theorem trans (hFirst : Silent writes creates s t) (hThen : Silent writes creates t u) :
    Silent writes creates s u where
  bank := hThen.bank.trans hFirst.bank
  seen := by
    intro k address
    rcases hThen.seen k address with hSame | ⟨app, hLive, hWrites⟩
    · rw [hSame]
      exact hFirst.seen k address
    · exact .inr ⟨app, hFirst.begun hLive, hWrites⟩
  begun hLive := hFirst.begun (hThen.begun hLive)
  ended := by
    intro app k address hLive
    rcases hFirst.ended hLive with hLive | hCreates
    · exact hThen.ended hLive
    · exact .inr hCreates

theorem mono {writes' creates' : Int → Int → Prop} (hSilent : Silent writes creates s t)
    (hWrites : ∀ app address, writes app address → writes' app address)
    (hCreates : ∀ app address, creates app address → creates' app address) :
    Silent writes' creates' s t where
  bank := hSilent.bank
  seen := by
    intro k address
    rcases hSilent.seen k address with hSame | ⟨app, hLive, hHere⟩
    · exact .inl hSame
    · exact .inr ⟨app, hLive, hWrites app address hHere⟩
  begun := hSilent.begun
  ended hLive := (hSilent.ended hLive).imp_right fun hHere => hCreates _ _ hHere

variable (hApart : Apart s)
include hApart
-- A block that is written to is shown at its own address only.
theorem write (hWrites : writes app address) (hOwned : owned s app address = some n) (b : Block) :
    Silent writes creates s { s with heap := s.heap.set n b } := by
  refine ⟨rfl, fun k address' => ?_, fun hLive => hLive, fun hLive => .inl hLive⟩
  cases hShown : shown s k address' with
  | none =>
    refine .inl ?_
    change (shown s k address').map _ = (shown s k address').map _
    rw [hShown]
    rfl
  | some m =>
    by_cases hBlock : m = n
    · subst hBlock
      rcases hApart.shownOwn hShown hOwned with ⟨rfl, _⟩
      exact .inr ⟨app, ⟨m, hOwned, hShown⟩, hWrites⟩
    · refine .inl ?_
      change (shown s k address').map _ = (shown s k address').map _
      rw [hShown]
      exact congrArg some (Heap.get_set_of_ne hBlock b)

-- An array that is made anew is not the one that a host is shown.
theorem create {arrays : Arrays} (hCreates : creates app address)
    (hArrays : get? app s.arrays = some arrays) (b : Block) :
    Silent writes creates s { s with
      heap := (s.heap.alloc b).1
      arrays := put app (put address (s.heap.alloc b).2 arrays) s.arrays } := by
  refine ⟨rfl, fun k address' => .inl ?_, ?_, ?_⟩
  · change (shown s k address').map _ = (shown s k address').map _
    cases hShown : shown s k address' with
    | none => rfl
    | some m => exact congrArg some (Heap.get_alloc (hApart.shownInside hShown) b)
  · rintro app' k address' ⟨n, hOwned, hShown⟩
    rcases owned_put hArrays rfl hOwned with ⟨_, _, rfl⟩ | ⟨_, hOld⟩
    · exact absurd (hApart.shownInside (s := s) hShown) (Nat.lt_irrefl _)
    · exact ⟨n, hOld, hShown⟩
  · rintro app' k address' ⟨n, hOwned, hShown⟩
    by_cases hHere : (app', address') = (app, address)
    · cases hHere
      exact .inr hCreates
    · exact .inl ⟨n, (owned_put_of_ne hArrays rfl hHere).trans hOwned, hShown⟩

theorem change (hShows : ¬ c.shows) (hChange : Change c s t) : Silent c.writes c.creates s t := by
  cases hChange with
  | aside hAside => exact of_same hAside.heap hAside.bank hAside.arrays
  | write hWrites hArrays hBlock _ =>
    refine write hApart hWrites ?_ _
    rw [owned, hArrays]
    exact hBlock
  | create hCreates hArrays _ => exact create hApart hCreates hArrays _
  | showRegister hNow _ _ _ | showArray hNow _ _ _ => exact absurd hNow hShows
  | _ => exact of_same rfl rfl rfl

theorem changes (hShows : ¬ c.shows) (hChanges : Changes c s t) :
    Silent c.writes c.creates s t := by
  induction hChanges with
  | refl => exact of_same rfl rfl rfl
  | tail hBefore hChange ih => exact ih.trans (change (hApart.changes hBefore) hShows hChange)

end Silent

---- Instructions that show nothing

-- An instruction of a subroutine may write to an array of an application. While it waits, responses
-- may be stored in any array.
def Writes : Instr → Int → Int → Prop
  | .op _ op operands _, app, address =>
    owner = some app ∧ address ∈ written op operands ∨ waits op operands = true
  | .note _, _, _ => False

def Makes : Instr → Int → Int → Prop
  | .op _ op operands _, app, address => owner = some app ∧ address ∈ created op operands
  | .note _, _, _ => False

def showing : Instr → Bool
  | .op _ op operands _ => returns op operands
  | .note _ => false

-- The scope of instructions of a subroutine.
def Scope.ofCode (sub : Nat) (instrs : Array Instr) : Scope where
  acts app := owner = some app
  writes app address := ∃ i ∈ instrs, Writes owner i app address
  creates app address := ∃ i ∈ instrs, Makes owner i app address
  shows := ∃ i ∈ instrs, showing i = true
  pairs := ∃ i ∈ instrs, idle sub i = false

theorem Allows.ofCode {subs : Table Nat (Option Int)} {owner : Option Int} {is : Array Instr}
    {family : Family} {op : Op} {os : List Operand} {host : Option HostLine}
    (hOwner : ∀ app, get? sub subs = some (some app) → owner = some app)
    (hMember : .op family op os host ∈ is) :
    Allows subs sub (ofCode owner sub is) op os where
  acts app hApp := hOwner app hApp
  writes app hApp _ hWritten := ⟨_, hMember, .inl ⟨hOwner app hApp, hWritten⟩⟩
  creates app hApp _ hCreated := ⟨_, hMember, hOwner app hApp, hCreated⟩
  shows hReturns := ⟨_, hMember, hReturns⟩
  waits hWaits := by
    refine ⟨⟨_, hMember, ?_⟩, fun _ _ => ⟨_, hMember, .inr hWaits⟩⟩
    rw [← isSome_waitsFor? sub] at hWaits
    simpa [idle] using hWaits

-- The instructions of a subroutine that has started stay within their scope.
theorem Within.ofCode {r : Subroutine} {i : Instr} (hMember : i ∈ r.instrs.toArray) (line : Int) :
    Within (begun r s).subroutines (ofCode r.appId s.nextSubroutine r.instrs.toArray)
      (Node.step s.nextSubroutine line i) := by
  refine Within.step (fun _ _ _ _ hOp => ?_) line
  subst hOp
  refine Allows.ofCode (fun _ hApp => ?_) hMember
  rw [begun, get?_put_self] at hApp
  exact Option.some.inj hApp

-- A subroutine makes changes of its scope, also if it is refused.
theorem changes_run (r : Subroutine) (s : Node) :
    Changes (ofCode r.appId s.nextSubroutine r.instrs.toArray) s (effect (run r) s).2 := by
  have hChanges : Lax (Changes (ofCode r.appId s.nextSubroutine r.instrs.toArray)) :=
    ⟨fun _ => .refl, .trans⟩
  exact hChanges.run (.single (.aside (by constructor <;> rfl)))
    (fun _ => .single (.aside (by constructor <;> rfl)))
    (Within.runFrom (fun i hMember line => Within.ofCode (i := i) hMember line) s.budget 0 _ rfl).2

namespace Silent

-- An instruction that shows nothing is silent, also if it is refused.
theorem step {i : Instr} (hApart : Apart s) (hShowing : showing i = false)
    (sub : Nat) (line : Int) :
    Silent (Writes (get? sub s.subroutines).join i) (Makes (get? sub s.subroutines).join i)
      s (effect (step sub line i) s).2 := by
  have hWithin : Within s.subroutines
      (ofCode (get? sub s.subroutines).join sub #[i]) (Node.step sub line i) := by
    refine Within.step (fun _ _ _ _ hOp => ?_) line
    subst hOp
    exact Allows.ofCode (fun app hApp => by rw [hApp]; rfl) (Array.mem_singleton_self _)
  refine (changes hApart ?_ (hWithin s rfl).2).mono ?_ ?_
  · rintro ⟨j, hMember, hShows⟩
    cases Array.mem_singleton.mp hMember
    exact absurd hShows (by simp [hShowing])
  · rintro app address ⟨j, hMember, hWrites⟩
    cases Array.mem_singleton.mp hMember
    exact hWrites
  · rintro app address ⟨j, hMember, hMakes⟩
    cases Array.mem_singleton.mp hMember
    exact hMakes

theorem handleResponse (hApart : Apart s) (r : NewResponse) :
    Silent (fun _ _ => True) (fun _ _ => False) s (effect (handleResponse r) s).2 :=
  changes (c := ⟨fun _ => False, fun _ _ => True, fun _ _ => False, False, True⟩) hApart
    (fun hShows => hShows)
    (Within.handleResponse trivial (fun _ _ => trivial) r s rfl).2

theorem run {r : Subroutine} (hApart : Apart s) (hShowing : ∀ i ∈ r.instrs, showing i = false) :
    Silent (fun app address => ∃ i ∈ r.instrs, Writes r.appId i app address)
      (fun app address => ∃ i ∈ r.instrs, Makes r.appId i app address)
      s (effect (run r) s).2 := by
  have hSilent := changes hApart ?_ (changes_run r s)
  · simpa only [ofCode, List.mem_toArray] using hSilent
  · rintro ⟨i, hMember, hShows⟩
    exact absurd hShows (by simp [hShowing i (List.mem_toArray.mp hMember)])

end Silent

---- Instructions that show something

theorem Aside.lenient : Lenient Aside where
  refl _ := by constructor <;> rfl
  trans hFirst hThen := {
    name := hThen.name.trans hFirst.name
    hardware := hThen.hardware.trans hFirst.hardware
    heap := hThen.heap.trans hFirst.heap
    bank := hThen.bank.trans hFirst.bank
    registers := hThen.registers.trans hFirst.registers
    arrays := hThen.arrays.trans hFirst.arrays
    shared := hThen.shared.trans hFirst.shared
    units := hThen.units.trans hFirst.units
    used := hThen.used.trans hFirst.used
    active := hThen.active.trans hFirst.active }
  aside _ hAside _ := hAside

section Steps
variable {line : Int} {family : Family} {op : Op} {host : Option HostLine}

theorem step_refused (hFork : forks? op os = none)
    (hPerform : effect (perform sub family op os) s = (.error e, t)) :
    effect (step sub line (.op family op os host)) s = (.error e, t) := by
  simp [step, execute, hFork, effect_bind, hPerform]

theorem step_done (hFork : forks? op os = none)
    (hPerform : effect (perform sub family op os) s = (.ok a, t)) :
    Aside t (effect (step sub line (.op family op os host)) s).2 := by
  have hAside := Aside.lenient.record sub line (.op family op os host) a t
  simp only [step, execute, hFork, effect_bind, hPerform, effect_pure]
  generalize effect (record sub line (.op family op os host) a) t = outcome at hAside
  rcases outcome with ⟨e | _, u⟩ <;> exact hAside

end Steps

-- Nothing that hosts read changes but a register of a memory.
structure OnlyRegister (k : Nat) (r : Reg) (s t : Node) : Prop where
  registers : ∀ k' r', (k', r') ≠ (k, r) →
      (t.bank.get k').registers.value r' = (s.bank.get k').registers.value r'
  arrays : ∀ k' address, seen t k' address = seen s k' address
  live : ∀ app k' address, Live t app k' address ↔ Live s app k' address

-- Nothing that hosts read changes but an array of a memory.
structure OnlyArray (k : Nat) (address : Int) (s t : Node) : Prop where
  registers : ∀ k' r, (t.bank.get k').registers.value r = (s.bank.get k').registers.value r
  arrays : ∀ k' address', (k', address') ≠ (k, address) → seen t k' address' = seen s k' address'
  live : ∀ app k' address', (k', address') ≠ (k, address) →
      (Live t app k' address' ↔ Live s app k' address')

namespace Aside

theorem seen_eq (hAside : Aside s t) (k : Nat) (address : Int) :
    seen t k address = seen s k address := by
  simp [seen, shown, hAside.bank, hAside.heap]

theorem live_iff (hAside : Aside s t) (app : Int) (k : Nat) (address : Int) :
    Live t app k address ↔ Live s app k address := by
  simp [Live, owned, shown, hAside.bank, hAside.arrays]

theorem onlyRegister (hAside : Aside t u) (hOnly : OnlyRegister k r s t) :
    OnlyRegister k r s u where
  registers k' r' hOther := by
    rw [hAside.bank]
    exact hOnly.registers k' r' hOther
  arrays k' address := (hAside.seen_eq k' address).trans (hOnly.arrays k' address)
  live app k' address := (hAside.live_iff app k' address).trans (hOnly.live app k' address)

theorem onlyArray (hAside : Aside t u) (hOnly : OnlyArray k address s t) :
    OnlyArray k address s u where
  registers k' r := by
    rw [hAside.bank]
    exact hOnly.registers k' r
  arrays k' address' hOther := (hAside.seen_eq k' address').trans (hOnly.arrays k' address' hOther)
  live app k' address' hOther :=
    (hAside.live_iff app k' address').trans (hOnly.live app k' address' hOther)

end Aside

theorem onlyRegister_set (k : Nat) (r : Reg) (v : Int) (s : Node) :
    OnlyRegister k r s (s.showRegister k r v) := by
  have hShown : ∀ k' address, shown (s.showRegister k r v) k' address = shown s k' address := by
    intro k' address
    simp only [shown, get_set]
    split
    · rename_i hHere
      rw [hHere.1]
    · rfl
  refine ⟨fun k' _ hOther => ?_, fun k' address => ?_, fun _ k' address => ?_⟩
  · simp only [get_set]
    split
    · rename_i hHere
      rcases hHere with ⟨rfl, _⟩
      exact value_put_of_ne (fun hSame => hOther (by rw [hSame])) _ _
    · rfl
  · simp [seen, hShown]
  · simp [Live, hShown, owned]

theorem onlyArray_put (hApart : Apart s) : OnlyArray k address s (s.showBlock k address n b) := by
  have hShown : ∀ k' address', (k', address') ≠ (k, address) →
      shown (s.showBlock k address n b) k' address' = shown s k' address' := by
    intro k' address' hOther
    simp only [shown, get_set]
    split
    · rename_i hHere
      rcases hHere with ⟨rfl, _⟩
      exact get?_put_of_ne (fun hSame => hOther (by rw [hSame])) _ _
    · rfl
  refine ⟨fun k' r => ?_, fun k' address' hOther => ?_, fun _ k' address' hOther => ?_⟩
  · simp only [get_set]
    split
    · rename_i hHere
      rw [hHere.1]
    · rfl
  · simp only [seen, hShown k' address' hOther]
    cases hBlock : shown s k' address' with
    | none => rfl
    | some m => exact congrArg some (Heap.get_alloc (hApart.shownInside hBlock) b)
  · simp [Live, hShown k' address' hOther, owned]

theorem shown_put_self (hInside : k < s.bank.memories.size) :
    shown (s.showBlock k address n b) k address = some n := by
  simp [shown, get_set, hInside]

theorem getReg_cases (app : Int) (r : Reg) (s : Node) :
    (∃ e, effect (getReg app r) s = (.error e, s)) ∨ ∃ v, effect (getReg app r) s = (.ok v, s) := by
  simp only [getReg, regsOf, effect_bind, effect_get]
  cases get? app s.registers with
  | none => exact .inl ⟨_, rfl⟩
  | some regs =>
    simp only [effect_pure]
    cases regs.get r with
    | error e => exact .inl ⟨e, rfl⟩
    | ok v => exact .inr ⟨v, rfl⟩

theorem returnReg_ok (hOff : s.hardware = false) (hShared : get? app s.shared = some k)
    (hRead : effect (getReg app r) s = (.ok x, s)) (v : Int) (e : Fault) :
    effect (returnReg app r v) s ≠ (.error e, s) := by
  have hPlace : checkPlace r = .ok () := by
    rcases of_bind_ok hRead with ⟨_, t, _, hGet⟩
    exact (get_ok (effect_lift_ok hGet).1).1
  have hWidth : Block.checkWidth s.hardware v = .ok () := by
    rw [hOff]
    rfl
  simp only [returnReg, sharedOf, effect_bind, effect_get, hShared, effect_pure,
    SharedMemory.setRegister, set_eq, hPlace, hWidth]
  rintro ⟨⟩

theorem returnArray_ok (hOff : s.hardware = false) (hOwned : owned s app address = some n)
    (hShared : get? app s.shared = some k) (e : Fault) :
    effect (returnArray app address) s ≠ (.error e, s) := by
  rcases Option.bind_eq_some_iff.mp hOwned with ⟨arrays, hArrays, hBlock⟩
  have hFound : Arrays.block arrays address = .ok n := by simp [Arrays.block, hBlock]
  have hWidth : Block.checkWidth s.hardware address = .ok () := by
    rw [hOff]
    rfl
  have hRow : Block.checkRow s.hardware (s.heap.get n) = .ok () := by
    rw [hOff]
    exact Block.checkRow_ok (by rintro ⟨⟩) (by rintro ⟨⟩)
  simp only [returnArray, arraysOf, sharedOf, shareBlock, effect_bind, effect_get, hArrays,
    effect_pure, effect_lift, hFound, hShared, Arrays.create, hWidth, hRow]
  rintro ⟨⟩

theorem perform_retReg_cases (sub : Nat) (family : Family) (r : Reg) (s : Node) :
    (∃ e, effect (perform sub family .retReg [.reg r]) s = (.error e, s) ∧ (s.hardware = true ∨
          ∀ app k v, get? sub s.subroutines = some (some app) →
            get? app s.shared = some k → effect (getReg app r) s ≠ (.ok (some v), s))) ∨
      ∃ app k v, get? sub s.subroutines = some (some app) ∧
        get? app s.shared = some k ∧ effect (getReg app r) s = (.ok (some v), s) ∧
        effect (perform sub family .retReg [.reg r]) s = (.ok none, s.showRegister k r v) := by
  simp only [perform, performWith, effect_bind]
  rcases appOf_cases sub s with ⟨e, hRefused, _⟩ | ⟨app, hFound, hApp⟩
  · refine .inl ⟨e, by simp [hRefused], .inr fun app _ _ hApp => ?_⟩
    cases (effect_appOf hApp).symm.trans hRefused
  have hOwn : ∀ {app'}, get? sub s.subroutines = some (some app') → app' = app := by
    intro app' hApp'
    cases hApp.symm.trans hApp'
    rfl
  simp only [hFound]
  rcases getReg_cases app r s with ⟨e, hRefused⟩ | ⟨_ | v, hRead⟩
  · refine .inl ⟨e, by simp [hRefused], .inr fun app' _ _ hApp' _ => ?_⟩
    rw [hOwn hApp', hRefused]
    rintro ⟨⟩
  · refine .inl ⟨_, by simp only [hRead]; rfl, .inr fun app' _ _ hApp' _ => ?_⟩
    rw [hOwn hApp', hRead]
    rintro ⟨⟩
  simp only [hRead]
  rcases returnReg_cases app r v s with ⟨e, hRefused⟩ | ⟨k, hShared, _, hDone⟩
  · refine .inl ⟨e, by simp only [effect_bind, hRefused], ?_⟩
    refine (Bool.eq_false_or_eq_true s.hardware).imp_right fun hOff app' k _ hApp' hShared _ => ?_
    rw [hOwn hApp'] at hShared
    exact absurd hRefused (returnReg_ok hOff hShared hRead v e)
  · exact .inr ⟨app, k, v, hApp, hShared, hRead, by simp only [effect_bind, hDone, effect_pure]⟩

-- Returning a register shows its value, and nothing else changes for hosts. If it is refused,
-- nothing does.
def ReturnsRegister (sub : Nat) (r : Reg) (s : Node) (outcome : Except Fault Int × Node) : Prop :=
  (∃ e, outcome = (.error e, s) ∧ (s.hardware = true ∨
      ∀ app k v, get? sub s.subroutines = some (some app) →
        get? app s.shared = some k → effect (getReg app r) s ≠ (.ok (some v), s))) ∨
  ∃ app k v, get? sub s.subroutines = some (some app) ∧ s.bank.find? s.name (some app) = some k ∧
    effect (getReg app r) s = (.ok (some v), s) ∧
    (outcome.2.bank.get k).registers.value r = some v ∧
    OnlyRegister k r s outcome.2

theorem returns_register (hApart : Apart s) (sub : Nat) (line : Int) (family : Family) (r : Reg)
    (host : Option HostLine) :
    ReturnsRegister sub r s (effect (step sub line (.op family .retReg [.reg r] host)) s) := by
  rcases perform_retReg_cases sub family r s with
    ⟨e, hRefused, hWhy⟩ | ⟨app, k, v, hApp, hShared, hRead, hDone⟩
  · exact .inl ⟨e, step_refused rfl hRefused, hWhy⟩
  · have hAside : Aside _ (effect (step sub line (.op family .retReg [.reg r] host)) s).2 :=
      step_done rfl hDone
    have hFound := hApart.registered hShared
    refine .inr ⟨app, k, v, hApp, hFound, hRead, ?_, hAside.onlyRegister (onlyRegister_set k r v s)⟩
    rw [hAside.bank]
    simp [get_set, hApart.numbered hFound]

-- Returning an array shows the array itself. If it is refused, nothing changes for hosts, but on
-- hardware the host may be left with an array of its size without defined entries.
def ReturnsArray (sub : Nat) (address : Int) (s : Node)
    (outcome : Except Fault Int × Node) : Prop :=
  (∃ e, outcome = (.error e, s) ∧ (s.hardware = true ∨
      ∀ app k, get? sub s.subroutines = some (some app) →
        get? app s.shared = some k → held s app address = none)) ∨
  ∃ app k array, get? sub s.subroutines = some (some app) ∧
    s.bank.find? s.name (some app) = some k ∧
    held s app address = some array ∧
    OnlyArray k address s outcome.2 ∧
    (seen outcome.2 k address = some array ∧ Live outcome.2 app k address ∨
      s.hardware = true ∧ seen outcome.2 k address = some (Block.fresh array.length) ∧
        ∃ e, outcome.1 = .error e)

theorem returns_array (hApart : Apart s) (sub : Nat) (line : Int) (family : Family) (address : Int)
    (host : Option HostLine) :
    ReturnsArray sub address s
      (effect (step sub line (.op family .retArr [.addr address] host)) s) := by
  rcases appOf_cases sub s with ⟨e, hRefused, _⟩ | ⟨app, hFound, hApp⟩
  · refine .inl ⟨e, step_refused rfl (by
      simp only [perform, performWith, effect_bind, hRefused]), .inr fun app _ hApp _ => ?_⟩
    cases (effect_appOf hApp).symm.trans hRefused
  have hPerform : effect (perform sub family .retArr [.addr address]) s =
      effect (do returnArray app address; return none : NodeM (Option Int)) s := by
    simp [perform, performWith, effect_bind, hFound]
  rcases returnArray_cases app address s with
    ⟨e, hRefused⟩ | ⟨_, n, k, hArrays, hBlock, hShared, hShown⟩
  · refine .inl ⟨e, step_refused rfl (by rw [hPerform, effect_bind, hRefused]),
      (Bool.eq_false_or_eq_true s.hardware).imp_right fun hOff _ k hApp' hShared => ?_⟩
    cases hApp.symm.trans hApp'
    refine Option.map_eq_none_iff.mpr (Option.eq_none_iff_forall_ne_some.mpr fun n hOwned => ?_)
    exact returnArray_ok hOff hOwned hShared e hRefused
  have hInside := hApart.numbered (hApart.registered hShared)
  have hOwned : owned s app address = some n := by
    rw [owned, hArrays]
    exact hBlock
  have hHeld : held s app address = some (s.heap.get n) := by
    rw [held, hOwned]
    rfl
  refine .inr ⟨app, k, s.heap.get n, hApp, hApart.registered hShared, hHeld, ?_⟩
  rcases hShown with ⟨e, hHardware, _, hHalf⟩ | hDone
  · have hStep : effect (step sub line (.op family .retArr [.addr address] host)) s = (.error e, _) :=
      step_refused rfl (by rw [hPerform, effect_bind, hHalf])
    rw [hStep]
    refine ⟨onlyArray_put hApart, .inr ⟨hHardware, ?_, e, rfl⟩⟩
    rw [seen, shown_put_self hInside]
    exact congrArg some (Heap.get_alloc_self _ _)
  · have hAside : Aside _ (effect (step sub line (.op family .retArr [.addr address] host)) s).2 :=
      step_done rfl (by
        rw [hPerform, effect_bind, hDone]
        rfl)
    refine ⟨hAside.onlyArray (onlyArray_put hApart), .inl ⟨?_, ?_⟩⟩
    · rw [hAside.seen_eq, seen, shown_put_self hInside]
      exact congrArg some (Heap.get_alloc (hApart.ownedInside hOwned) _)
    · rw [hAside.live_iff]
      exact ⟨n, hOwned, shown_put_self hInside⟩

---- What hosts see

/-
  In every possible state of a node:
    * An array that a host is shown itself is one of the
      application whose memory shows it.
    * An instruction that returns nothing changes no shared
      memory.  Hosts read something else at most in an array
      that they are shown itself and that the instruction
      writes to.  They are shown the array until it is made
      anew.
    * The same holds of a response and of a whole subroutine.
    * Returning a register changes that register of the memory
      of the application, to its value.
    * Returning an array changes the array at that address of
      the memory of the application, to the array.
-/
theorem hosts_see_returned
    (hPossible : Possible s) :
    (∀ app k address, Live s app k address →
      s.bank.find? s.name (some app) = some k ∧ seen s k address = held s app address) ∧
    (∀ sub line i, showing i = false → Silent (Writes (Table.get? sub s.subroutines).join i)
        (Makes (Table.get? sub s.subroutines).join i)
        s (Activity.leaves (.instr sub line i) s)) ∧
    (∀ r, Silent (fun _ _ => True) (fun _ _ => False) s (Activity.leaves (.arrival r) s)) ∧
    (∀ r : Subroutine, (∀ i ∈ r.instrs, showing i = false) → Silent
        (fun app address => ∃ i ∈ r.instrs, Writes r.appId i app address)
        (fun app address => ∃ i ∈ r.instrs, Makes r.appId i app address)
        s (Activity.leaves (.run r) s)) ∧
    (∀ sub line family r host,
      ReturnsRegister sub r s (effect (step sub line (.op family .retReg [.reg r] host)) s)) ∧
    (∀ sub line family address host, ReturnsArray sub address s
        (effect (step sub line (.op family .retArr [.addr address] host)) s)) := by
  have hApart := hPossible.apart
  refine ⟨?_, ?_, ?_, ?_, returns_register hApart, returns_array hApart⟩
  · rintro app k address ⟨n, hOwned, hShown⟩
    exact ⟨(hApart.shownOwn hShown hOwned).2, Live.seen_eq ⟨n, hOwned, hShown⟩⟩
  · exact fun sub line i hShowing => Silent.step hApart hShowing sub line
  · exact fun r => Silent.handleResponse hApart r
  · exact fun r hShowing => Silent.run hApart hShowing

-- A subroutine that makes an array and returns it.
def lending : Subroutine := ⟨none, some 0, [], [
  core .set [register .r 1, .int 2],
  core .array [register .r 1, .addr 0],
  core .retArr [.addr 0],
  core .set [register .r 0, .int 0]]⟩

def writing : Subroutine :=
  { lending with instrs := [core .store [register .r 1, .entry 0 (.reg ⟨.r, 0⟩)]] }

-- The host of an application has been shown an array of two entries.
def lent : Node :=
  leaves (.run lending) (Activity.leaves (.initApp 0 1) (Node.fresh "alice" 0 .vanilla false true))

theorem possible_lent : Possible lent := ((Possible.fresh _ _ _ _ _).initApp 0 1).run lending

-- The host reads what is stored after the array has been returned.
theorem store_seen :
    Possible lent ∧ (∀ i ∈ writing.instrs, showing i = false) ∧ seen lent 0 0 = some [none, none] ∧
      seen (Activity.leaves (.run writing) lent) 0 0 = some [some 2, none] := by
  refine ⟨possible_lent, by decide +kernel, by decide +kernel, by decide +kernel⟩

-- What the host is shown is the array, and only there the later subroutine is seen.
theorem hosts_see_returned_lent :
    Possible lent ∧ Live lent 0 0 0 ∧
      ∀ k address, seen (Activity.leaves (.run writing) lent) k address ≠ seen lent k address →
        ∃ app, Live lent app k address ∧
          ∃ i ∈ writing.instrs, Writes writing.appId i app address := by
  refine ⟨possible_lent, ⟨0, by decide +kernel, by decide +kernel⟩, fun k address hOther => ?_⟩
  have hRun := (hosts_see_returned possible_lent).2.2.2.1 writing (by decide +kernel)
  exact (hRun.seen k address).resolve_left hOther

end QuantumNode.Node
