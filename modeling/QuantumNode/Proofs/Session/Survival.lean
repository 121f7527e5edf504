import QuantumNode.Proofs.Assembly.Temporaries
import QuantumNode.Proofs.Node.Ownership
import QuantumNode.Proofs.Session.Adding
import QuantumNode.Session.Connection

/-
  Registers in use over several subroutines. What a session adds to a subroutine on its own writes
  to none of them, but constants are put into any register that the subroutine does not name. The
  value of a future in a register is replaced by the next value that is returned in it. Only a flush
  forgets which arrays and registers a program returns, so that they are made and returned again
  after it was compiled.
-/

open List

namespace QuantumNode
open Constants Assembly Checked Instr Item
variable {items whole : List Item} {instrs : List Instr} {held : List (Reg × Int)} {r : Reg}
  {os os' : List Operand} {op : Op}

namespace Assembly
open Draft

theorem carried_getElem? (hCarried : Forall₂ (Carried held) os os') (j : Nat) :
    (os[j]? = some (.reg r) → os'[j]? = some (.reg r)) ∧
      (os'[j]? = some (.reg r) → os[j]? = some (.reg r) ∨ r ∈ held.map Prod.fst) := by
  induction hCarried generalizing j with
  | nil => simp
  | cons hFirst _ ih =>
    cases j with
    | zero =>
      simp only [getElem?_cons_zero, Option.some.injEq]
      exact ⟨hFirst.register r, hFirst.held r⟩
    | succ j => exact ih j

theorem mem_outputs : r ∈ outputs op os ↔ ∃ j, target? op = some j ∧ os[j]? = some (.reg r) := by
  unfold outputs
  cases target? op with
  | none => simp
  | some j =>
    simp only [Option.bind_some, Option.some.injEq, exists_eq_left']
    split
    · rename_i q hOperand
      simp [hOperand, eq_comm]
    · rename_i hOther
      exact ⟨fun hNone => absurd hNone not_mem_nil, fun hOperand => absurd hOperand (hOther r)⟩

theorem writes_loads (hLoads : Forall₂ IsSetInstr held loads) :
    loads.flatMap writes = held.map Prod.fst := by
  induction hLoads with
  | nil => rfl
  | cons hSet _ ih =>
    rcases hSet with ⟨n, _, rfl, _⟩
    simpa [writes] using ih

-- The registers that instructions write to, by the commands they are for.
theorem mem_writes_built (hBuilt : Built whole items is) :
    r ∈ is.flatMap Instr.writes ↔ ∃ c, Item.command c ∈ items ∧
        (r ∈ outputs c.op c.inputs ∨ r ∈ temporaries whole ⟨c.op, [], c.inputs, c.line⟩) := by
  induction hBuilt with
  | nil => simp
  | label _ ih => simpa using ih
  | @command c held loads os family rest code hTemps hLoads hCarried _ _ ih =>
    have hOwn : r ∈ held.map Prod.fst ∨ r ∈ outputs c.op os ↔
        r ∈ outputs c.op c.inputs ∨ r ∈ held.map Prod.fst := by
      simp only [mem_outputs]
      constructor
      · rintro (hHeld | ⟨j, hTarget, hOperand⟩)
        · exact .inr hHeld
        · exact ((carried_getElem? hCarried j).2 hOperand).imp_left fun hInput =>
            ⟨j, hTarget, hInput⟩
      · rintro (⟨j, hTarget, hInput⟩ | hHeld)
        · exact .inr ⟨j, hTarget, (carried_getElem? hCarried j).1 hInput⟩
        · exact .inl hHeld
    rw [hTemps] at hOwn
    simp only [flatMap_append, flatMap_cons, mem_append, writes_loads hLoads, hTemps,
      writes_eq, ← or_assoc, hOwn, ih]
    simp

end Assembly

namespace Session

-- A subroutine, the session that it is for, and its draft.
structure Sending where
  session : Session
  draft : Draft
  code : Subroutine

namespace Sending

-- The draft is what is pending, and the subroutine is what it is assembled to.
structure Sound (x : Sending) : Prop where
  drafted : ∃ t, effect popDraft x.session = (.ok (some x.draft), t)
  assembled : assemble .full .vanilla x.draft = .ok x.code

-- A command that is pending writes to a register.
def names (x : Sending) (r : Reg) : Prop :=
  ∃ c, Item.command c ∈ x.session.pending ∧ r ∈ Draft.outputs c.op c.inputs

-- The registers that constants are put into: the first ones that no command names.
def drawn (x : Sending) : List Reg :=
  let items := x.draft.items.map liftArgs
  (spare items).take (most items)

end Sending

theorem output_bare (items : List Item) :
    (∃ c, Item.command c ∈ items ∧ r ∈ Draft.outputs c.op c.inputs) ↔
      ∃ c, Item.command c ∈ items.map Item.bare ∧ r ∈ Draft.outputs c.op c.inputs := by
  constructor
  · rintro ⟨c, hItem, hOutput⟩
    exact ⟨_, mem_map_of_mem (f := Item.bare) hItem, hOutput⟩
  · rintro ⟨c, hMember, hOutput⟩
    rcases mem_map.mp hMember with ⟨item, hItem, hBare⟩
    cases item with
    | label name line => cases hBare
    | command c' =>
      cases hBare
      exact ⟨c', hItem, hOutput⟩

-- What a session adds on its own writes to no register in use.
theorem Sending.Sound.names_iff {x : Sending} (hSound : x.Sound)
    (hUsed : r ∈ x.session.allocation.registers) :
    x.names r ↔ ∃ c, Item.command c ∈ x.draft.items ∧ r ∈ Draft.outputs c.op c.inputs := by
  rcases hSound.drafted with ⟨t, hDrafted⟩
  rcases popDraft_parts (Subset.refl _) hDrafted with ⟨front, back, hItems, hFront, hBack⟩
  rw [Sending.names, output_bare x.session.pending, output_bare x.draft.items, hItems]
  constructor
  · rintro ⟨c, hPending, hOutput⟩
    exact ⟨c, mem_append_right _ (mem_append_left _ hPending), hOutput⟩
  · rintro ⟨c, hMember, hOutput⟩
    rw [mem_append, mem_append] at hMember
    rcases hMember with hFirst | hPending | hLast
    · exact absurd hOutput (hFront.spares _ hFirst r hUsed)
    · exact ⟨c, hPending, hOutput⟩
    · exact absurd hOutput (hBack.spares _ hLast r hUsed)

theorem mem_drawn {x : Sending} :
    r ∈ x.drawn ↔ ∃ c, Item.command c ∈ x.draft.items ∧
      r ∈ temporaries (x.draft.items.map Assembly.liftArgs) ⟨c.op, [], c.inputs, c.line⟩ := by
  rw [Sending.drawn, ← mem_temporaries]
  constructor
  · rintro ⟨c, hMember, hTemporary⟩
    rcases mem_map.mp hMember with ⟨item, hItem, hLifted⟩
    cases item with
    | label name line => cases hLifted
    | command c' =>
      cases hLifted
      exact ⟨c', hItem, hTemporary⟩
  · rintro ⟨c, hMember, hTemporary⟩
    exact ⟨_, mem_map_of_mem (f := liftArgs) hMember, hTemporary⟩

-- The node after it has run subroutines, however each of them ends.
def runAll (programs : List Subroutine) (n : Node) : Node :=
  programs.foldl (fun n p => (effect (Node.run p) n).2) n

theorem registerOf_run (hUnwritten : r ∉ p.instrs.flatMap writes) (app : Int) (n : Node) :
    (effect (Node.run p) n).2.registerOf app r = n.registerOf app r := by
  refine Node.Spares.run (R := fun s t : Node => t.registerOf app r = s.registerOf app r)
    (fun hFirst hThen => hThen.trans hFirst) (fun hRegisters _ => ?_)
    (fun _ _ _ _ hMember s t hSpares => ?_) n
  · rw [Node.registerOf, hRegisters]
    rfl
  · refine hSpares.registers r (fun hWritten => hUnwritten ?_) app
    refine mem_flatMap.mpr ⟨_, hMember, ?_⟩
    rw [Draft.writes_eq] at hWritten ⊢
    exact hWritten

/-
  A register in use is written to by a subroutine exactly if a pending command writes to it or a
  constant is put into it. As long as neither happens, it holds the same value, whatever else the
  subroutines do and however they end.
-/
theorem registers_survive
    {history : List Sending}
    (hSound : ∀ x ∈ history, x.Sound)
    (hUsed : ∀ x ∈ history, r ∈ x.session.allocation.registers) :
    (∀ x ∈ history, (∃ i ∈ x.code.instrs, r ∈ i.writes) ↔ x.names r ∨ r ∈ x.drawn) ∧
    ((∀ x ∈ history, ¬ x.names r ∧ r ∉ x.drawn) →
      ∀ app n, (runAll (history.map Sending.code) n).registerOf app r = n.registerOf app r) := by
  have hWrites : ∀ x ∈ history,
      (r ∈ x.code.instrs.flatMap Instr.writes ↔ x.names r ∨ r ∈ x.drawn) := by
    intro x hx
    rw [Assembly.mem_writes_built (Assembly.built_of_assemble (hSound x hx).assembled), mem_drawn]
    simp only [and_or_left, exists_or]
    exact or_congr ((hSound x hx).names_iff (hUsed x hx)).symm Iff.rfl
  refine ⟨fun x hx => by rw [← hWrites x hx, mem_flatMap], fun hFree app => ?_⟩
  induction history with
  | nil => exact fun n => rfl
  | cons x rest ih =>
    intro n
    have hHere : r ∉ x.code.instrs.flatMap Instr.writes := by
      rw [hWrites x mem_cons_self, not_or]
      exact hFree x mem_cons_self
    refine Eq.trans ?_ (registerOf_run hHere app n)
    exact ih (fun y hy => hSound y (mem_cons_of_mem _ hy))
      (fun y hy => hUsed y (mem_cons_of_mem _ hy))
      (fun y hy => hWrites y (mem_cons_of_mem _ hy))
      (fun y hy => hFree y (mem_cons_of_mem _ hy)) _

-- A session with a node at hand that has room for five qubits.
def ready (outcomes : List Int) : Session :=
  let node := { Node.fresh "alice" 0 .vanilla false false with outcomes := outcomes }
  ((start ⟨"alice", none, none, 5, none, false, true, [], true, some node, []⟩ .empty).toOption).getD
    default

-- A qubit is created while a register is in use.
def creating : Sending :=
  let s := (effect (do
    let _ ← newRegister (.int 5)
    flush
    createQubit true .nothing none) (ready [])).2
  let d := ((effect popDraft s).1.toOption.join).getD default
  ⟨s, d, ((assemble .full .vanilla d).toOption).getD default⟩

theorem sound_creating : creating.Sound :=
  ⟨⟨_, effect_of_toOption (by decide +kernel)⟩, by decide +kernel⟩

theorem registers_survive_creating :
    creating.session.pending ≠ [] ∧ ⟨.r, 0⟩ ∈ creating.session.allocation.registers ∧
      ∀ app n, (runAll [creating.code] n).registerOf app ⟨.r, 0⟩ = n.registerOf app ⟨.r, 0⟩ := by
  have hUsed : ⟨.r, 0⟩ ∈ creating.session.allocation.registers := by decide +kernel
  rcases @registers_survive ⟨.r, 0⟩ [creating] (by simpa using sound_creating)
    (by simpa using hUsed) with ⟨hWrites, hKept⟩
  have hNone : ¬ ∃ i ∈ creating.code.instrs, ⟨.r, 0⟩ ∈ i.writes := by decide +kernel
  rw [hWrites creating mem_cons_self, not_or] at hNone
  exact ⟨by decide +kernel, hUsed, hKept (by simpa using hNone)⟩

-- The length of an array is put into a register that is in use.
theorem register_overwritten :
    let kept := effect (do
      let _ ← newRegister (.int 5)
      flush) (ready [])
    let lost := effect (do
      let _ ← arrayOf 2
      flush) kept.2
    kept.1.isOk ∧ lost.1.isOk ∧ lost.2.allocation.registers = [⟨.r, 0⟩] ∧
      kept.2.backend.map (fun n => n.registerOf 0 ⟨.r, 0⟩) = some (some 5) ∧
      lost.2.backend.map (fun n => n.registerOf 0 ⟨.r, 0⟩) = some (some 2) := by
  decide +kernel

---- Futures in registers

variable {s : Session} {f : Nat} {later : List Subroutine}

def facing (n : Node) (s : Session) : Session := { s with backend := some n }

def returned : Instr → List Reg
  | .op _ .retReg [.reg r] _ => [r]
  | _ => []

def SameShown (r : Reg) (n m : Node) : Prop :=
  m.bank.registry = n.bank.registry ∧
    ∀ k, (m.bank.get k).registers.get r = (n.bank.get k).registers.get r

theorem sameShown_runAll (hUnreturned : ∀ p ∈ later, r ∉ p.instrs.flatMap returned) (n : Node) :
    SameShown r n (runAll later n) := by
  have hTrans : ∀ {n m l}, SameShown r n m → SameShown r m l → SameShown r n l :=
    fun hFirst hThen => ⟨hThen.1.trans hFirst.1, fun k => (hThen.2 k).trans (hFirst.2 k)⟩
  induction later generalizing n with
  | nil => exact ⟨rfl, fun _ => rfl⟩
  | cons p rest ih =>
    have hRun : SameShown r n (effect (Node.run p) n).2 := by
      refine Node.Spares.run (R := SameShown r) hTrans
        (fun _ hBank => by simp [SameShown, hBank]) ?_ n
      intro _ _ _ _ hMember s t hSpares
      refine ⟨hSpares.registry, fun k => ?_⟩
      refine congrArg (Registers.checkPlace r >>= fun _ => pure ·) (hSpares.shown r ?_ k)
      rintro ⟨rfl, rfl⟩
      exact hUnreturned p mem_cons_self (mem_flatMap.mpr ⟨_, hMember, mem_singleton_self r⟩)
    exact hTrans hRun (ih (fun q hq => hUnreturned q (mem_cons_of_mem _ hq)) _)

theorem effect_valueOf (hCell : s.futures[f]? = some ⟨place, known⟩) :
    effect (valueOf f) s = known.elim (effect (do
      let v ← lookup place
      setFuture f ⟨place, v⟩
      return v) s) fun v => (.ok (some v), s) := by
  have hGet : effect (futureCell f) s = (.ok ⟨place, known⟩, s) := by
    rw [futureCell, effect_get_bind, Array.getD_eq_getD_getElem?, hCell]
    rfl
  rw [valueOf, effect_bind, hGet]
  cases known <;> rfl

-- A register is looked up in the memory that the session shares with its node.
theorem effect_lookup (s : Session) (r : Reg) (n : Node) :
    effect (lookup (.register (some r))) (s.facing n) =
      (s.memory.or (Table.get? (s.node, some s.appId) n.bank.registry)).elim
        (.error (.session .noSharedMemory), s.facing n)
        fun k => ((n.bank.get k).registers.get r, { s.facing n with memory := some k }) := by
  simp only [lookup, readRegister, effect_bind, effect_get, facing, sharedMemory, MemoryBank.find?]
  cases s.memory.or (Table.get? (s.node, some s.appId) n.bank.registry) <;> rfl

-- The value of a future in a register is the same after any number of subroutines that do not
-- return the register. Once it was read, it is the same whatever the node does.
theorem register_future_stays
    {s t : Session}
    {f : Nat}
    {v : Int}
    {n : Node}
    {later : List Subroutine}
    (hPlace : s.place? f = some (.register (some r)))
    (hRead : effect (valueOf f) (s.facing n) = (.ok (some v), t))
    (hUnreturned : ∀ p ∈ later, r ∉ p.instrs.flatMap returned) :
    (effect (valueOf f) (s.facing (runAll later n))).1 = .ok (some v) ∧
      ∀ m, (effect (valueOf f) (t.facing m)).1 = .ok (some v) := by
  rcases Option.map_eq_some_iff.mp hPlace with ⟨⟨place, known⟩, hCell, rfl⟩
  have hSession : ∀ m, effect (valueOf f) (s.facing m) = _ := fun m => effect_valueOf hCell
  rw [hSession] at hRead ⊢
  cases known with
  | some w =>
    cases hRead
    exact ⟨rfl, fun m => congrArg Prod.fst (hSession m)⟩
  | none =>
    rcases of_bind_ok hRead with ⟨_, u, hLook, ⟨⟩⟩
    rcases sameShown_runAll hUnreturned n with ⟨hRegistry, hShown⟩
    simp only [Option.elim, effect_bind, effect_lookup, hRegistry] at hLook ⊢
    cases hIndex : s.memory.or (Table.get? (s.node, some s.appId) n.bank.registry) with
    | none =>
      rw [hIndex] at hLook
      cases hLook
    | some k =>
      rw [hIndex] at hLook
      rcases Prod.mk.inj hLook with ⟨hGet, rfl⟩
      have hKnown : (s.futures.setIfInBounds f ⟨.register (some r), some v⟩)[f]? =
          some ⟨.register (some r), some v⟩ := by
        rw [Array.getElem?_setIfInBounds_self, if_pos (Array.getElem?_eq_some_iff.mp hCell).1]
      refine ⟨?_, fun m => (congrArg Prod.fst (effect_valueOf hKnown)).trans rfl⟩
      simp only [hShown, hGet]
      rfl

-- A qubit is measured into a register, which is then returned.
def measuring : SessionM Value := do
  let q ← createQubit true .nothing none
  let outcome ← measure q .none false false .z none
  flush
  return outcome

theorem register_future_stays_creating :
    let s := (effect measuring (ready [1])).2
    (effect (valueOf 0) (s.facing (runAll [creating.code] (s.backend.getD default)))).1 =
      .ok (some 1) := by
  intro s
  have hPlace : s.place? 0 = some (.register (some ⟨.m, 0⟩)) := by
    have hGiven : Flow.Term.isGivenBy s (.register ⟨.m, 0⟩) (.future 0) = true := by decide +kernel
    cases Flow.Term.given hGiven with
    | register hFound => exact hFound
  exact (register_future_stays hPlace (effect_of_toOption (by decide +kernel))
    (by decide +kernel)).1

-- The outcome of the first measurement is replaced by that of the second.
theorem outcome_replaced :
    let first := effect measuring (ready [0, 1])
    let second := effect measuring first.2
    first.1.isOk ∧ (effect (valueOf 0) first.2).1.toOption = some (some 0) ∧
      second.1.isOk ∧ (effect (valueOf 0) second.2).1.toOption = some (some 1) := by
  decide +kernel

end Session

---- Compiled programs

-- Numbers become immediates.
def Operand.immediate : Operand → Operand
  | int v => imm v
  | o => o

-- An instruction as it is sent: its numbers are immediates, and its line is not known.
def Instr.sent : Instr → Instr
  | .op family o operands _ => .op family o (operands.map Operand.immediate) none
  | .note words => .note words

def Subroutine.sentFor (app : Int) (p : Subroutine) : Subroutine :=
  { p with instrs := p.instrs.map sent, appId := some app }

theorem Slot.eq_map_immediate (hFit : fitAll? slots os = some os') :
    os' = os.map Operand.immediate := by
  induction os generalizing slots os' with
  | nil =>
    cases slots <;> cases hFit
    rfl
  | cons o rest ih =>
    rcases fitAll_cons hFit with ⟨slot, _, _, _, rfl, rfl, hFirst, hRest⟩
    rw [ih hRest]
    cases slot <;> cases o <;> cases hFirst <;> rfl

-- Without values, only lines are lost.
theorem Subroutine.fill_none (hFill : fill none os = .ok os') : os' = os := by
  induction os generalizing os' with
  | nil =>
    cases hFill
    rfl
  | cons o rest ih =>
    cases o with
    | template name => cases hFill
    | _ =>
      rcases answer_ok hFill with ⟨_, hRest, rfl⟩
      rw [ih hRest]

theorem Subroutine.fillAll_none (hFill : fillAll none is = .ok is') : is' = is.map sent := by
  induction is generalizing is' with
  | nil =>
    cases hFill
    rfl
  | cons i rest ih =>
    cases i with
    | note words =>
      rcases answer_ok hFill with ⟨rest', hRest, rfl⟩
      rw [ih hRest]
      rfl
    | op family o os line =>
      rcases binds_ok hFill with ⟨_, hOperands, i, hInstr, hFill⟩
      rcases answer_ok hFill with ⟨rest', hRest, rfl⟩
      cases fill_none hOperands
      unfold ofOperands at hInstr
      split at hInstr
      · rename_i _ hFit
        cases hInstr
        rw [ih hRest, Slot.eq_map_immediate hFit]
        rfl
      · cases hInstr

namespace Session
open Flow
variable {s t u : Session} {id : Nat} {a : Unit}

theorem send_ok (hEffect : effect (send m) s = (.ok a, t)) :
    ∃ backend, t = { s with sent := s.sent ++ [m.wrap.encode], backend := backend } := by
  rcases of_bind_ok hEffect with ⟨_, s₁, ⟨⟩, hLater⟩
  rw [effect_get_bind] at hLater
  split at hLater
  · cases hLater
    exact ⟨_, rfl⟩
  · rcases of_bind_ok hLater with ⟨_, _, ⟨⟩, hResult⟩
    cases (effect_lift_ok hResult).2
    exact ⟨_, rfl⟩

theorem instantiate_ok {app : Int} {p : Subroutine} (hProgram : s.programs[id]? = some p)
    (hEffect : effect (instantiate id app none) s = (.ok a, t)) :
    t = { s with programs := s.programs.setIfInBounds id (p.sentFor app) } := by
  rcases of_bind_ok hEffect with ⟨p', _, ⟨⟩, hLater⟩
  rcases of_lift_bind_ok hLater with ⟨q, hFill, ⟨⟩⟩
  rw [Array.getD_eq_getD_getElem?, hProgram] at hFill
  rcases answer_ok hFill with ⟨_, hInstrs, rfl⟩
  rw [Subroutine.fillAll_none hInstrs]
  rfl

theorem commit_ok (hProgram : s.programs[id]? = some p)
    (hEffect : effect (commit id) s = (.ok a, t)) :
    ∃ bytes backend, p.encode = .ok bytes ∧ t = { s with
        sent := s.sent ++ [(HostMessage.subroutine bytes).wrap.encode], backend := backend } := by
  rcases of_bind_ok hEffect with ⟨p', _, ⟨⟩, hLater⟩
  rcases of_lift_bind_ok hLater with ⟨bytes, hBytes, hSend⟩
  rw [Array.getD_eq_getD_getElem?, hProgram] at hBytes
  rcases send_ok hSend with ⟨backend, rfl⟩
  exact ⟨bytes, backend, hBytes, rfl⟩

-- Nothing is pending any more, and there is a program if something was.
structure Compiled (s : Session) (o : Option Nat) (u : Session) : Prop where
  pending : u.pending = []
  sent : u.sent = s.sent
  allocation : u.allocation = s.allocation
  returnsArrays : u.returnsArrays = s.returnsArrays
  appId : u.appId = s.appId
  qubits : u.qubits = s.qubits
  tracker : u.tracker = s.tracker
  program : ∀ id ∈ o, ∃ p, u.programs[id]? = some p

theorem compile_ok (hCompile : effect compile s = (.ok o, u)) : Compiled s o u := by
  rcases of_bind_ok hCompile with ⟨d, t, hDraft, hLater⟩
  rcases popDraft_drafted hDraft with ⟨_, hDrafted⟩
  have hSame : ∀ programs committed, (∀ id ∈ o, ∃ p, programs[id]? = some p) →
      Compiled s o { t with programs := programs, committed := committed } := fun _ _ hProgram =>
    ⟨hDrafted.pending_eq, hDrafted.same.view_eq (g := sent) fun _ _ _ => rfl,
      hDrafted.same.allocation, hDrafted.same.view_eq (g := returnsArrays) fun _ _ _ => rfl,
      hDrafted.same.view_eq (g := appId) fun _ _ _ => rfl,
      hDrafted.same.view_eq (g := qubits) fun _ _ _ => rfl,
      hDrafted.same.view_eq (g := tracker) fun _ _ _ => rfl, hProgram⟩
  cases d with
  | none =>
    cases hLater
    exact hSame _ _ (by rintro id ⟨⟩)
  | some d =>
    rcases of_bind_ok hLater with ⟨id, v, hCompiled, ⟨⟩⟩
    rw [compileDraft, effect_get_bind] at hCompiled
    rcases of_lift_bind_ok hCompiled with ⟨assembled, _, hMapped⟩
    have hPushed : ∃ p, effect (do
        let id ← newProgram p
        if t.tracker.isSome then modify fun s => { s with committed := s.committed ++ [id] }
        return id) t = (.ok id, u) := by
      by_cases hMode : t.mapped = true
      · rw [if_pos hMode] at hMapped
        rcases of_lift_bind_ok hMapped with ⟨mapped, _, hPushed⟩
        exact ⟨_, hPushed⟩
      · rw [if_neg hMode] at hMapped
        exact ⟨_, hMapped⟩
    rcases hPushed with ⟨p, hPushed⟩
    by_cases hTracked : t.tracker.isSome = true
    all_goals
      simp only [hTracked] at hPushed
      cases hPushed
      exact hSame _ _ (by rintro id ⟨⟩; exact ⟨p, by simp⟩)

/-
  Compiling sends nothing and keeps what is to be returned. A flush of the same session sends this
  program, and nothing is left to be made or returned. Behind a compiled program, however, the next
  draft makes all arrays and returns arrays and registers once more.
-/
theorem compiled_repeated
    {s u : Session}
    {o : Option Nat}
    (hCompile : effect compile s = (.ok o, u)) :
    (u.pending = [] ∧ u.sent = s.sent ∧ u.allocation = s.allocation) ∧
    (∀ t, effect flush s = (.ok (), t) → o = none ∧ t = u ∨
      ∃ id p bytes, o = some id ∧ u.programs[id]? = some p ∧
        (p.sentFor s.appId).encode = .ok bytes ∧
        t.sent = s.sent ++ [(HostMessage.subroutine bytes).wrap.encode] ∧
        t.pending = [] ∧ t.allocation = s.allocation.reset ∧
        ∀ d v, effect popDraft t = (.ok d, v) → d = none) ∧
    ∀ d v, effect popDraft u = (.ok d, v) →
      (d = none → returnedArrays s ++ returnedRegisters s = []) ∧
        ∀ x ∈ d, Lays [] (complete s .done) x.items := by
  have hCompiled := compile_ok hCompile
  refine ⟨⟨hCompiled.pending, hCompiled.sent, hCompiled.allocation⟩, fun t hFlush => ?_,
    fun d v hDraft => ?_⟩
  · rcases of_bind_ok hFlush with ⟨_, _, hCompile', hLater⟩
    cases hCompile.symm.trans hCompile'
    cases o with
    | none =>
      cases hLater
      exact .inl ⟨rfl, rfl⟩
    | some id =>
      rcases hCompiled.program id rfl with ⟨p, hProgram⟩
      rw [effect_get_bind] at hLater
      rcases of_binds_ok hLater with ⟨_, v, hFill, _, x, hCommit, ⟨⟩⟩
      cases instantiate_ok hProgram hFill
      have hInside := (Array.getElem?_eq_some_iff.mp hProgram).1
      rcases commit_ok (p := p.sentFor u.appId) (by simp [hInside]) hCommit with
        ⟨bytes, _, hBytes, rfl⟩
      rw [hCompiled.appId] at hBytes
      refine .inr ⟨id, p, bytes, rfl, hProgram, hBytes, congrArg (· ++ _) hCompiled.sent,
        hCompiled.pending, congrArg Allocation.reset hCompiled.allocation, fun d v hDraft => ?_⟩
      rcases popDraft_drafted hDraft with ⟨made, hDrafted⟩
      have hMade := hDrafted.made_ok
      cases hMade
      rw [hDrafted.isNone_iff, ← List.map_eq_nil_iff, hDrafted.items_eq]
      simp [withPending, hCompiled.pending, returnedArrays, returnedRegisters, Allocation.reset]
  · have hBehind : returnedArrays u ++ returnedRegisters u = returnedArrays s ++ returnedRegisters s := by
      simp [returnedArrays, returnedRegisters, hCompiled.allocation, hCompiled.returnsArrays]
    have hComplete : complete u .done = complete s .done := by
      simp [complete, makingAll, Flow.spare, returnedArrays, returnedRegisters,
        hCompiled.allocation, hCompiled.returnsArrays]
    refine ⟨?_, fun x hx => ?_⟩
    · rintro rfl
      rcases popDraft_drafted hDraft with ⟨made, hDrafted⟩
      have hNothing := List.map_eq_nil_iff.mp hDrafted.items_eq.symm
      rw [hBehind] at hNothing
      exact (List.append_eq_nil_iff.mp (List.append_eq_nil_iff.mp hNothing).2).2
    · cases hx
      rw [← hComplete]
      refine popDraft_ok (List.nil_subset _) ?_ hDraft
      rw [hCompiled.pending]
      exact ⟨[], .done, rfl⟩

-- A session with an array that is not made yet.
def planning : Session := (effect (arrayOf 2) (ready [])).2

theorem compiled_repeated_planning :
    let u := (effect compile planning).2
    ∀ d v, effect popDraft u = (.ok d, v) → ∀ x ∈ d, Lays [] (complete planning .done) x.items := by
  intro u d v hDraft
  have hCompile := effect_of_toOption (x := compile) (s := planning) (a := some 0) (by decide +kernel)
  exact ((compiled_repeated hCompile).2.2 d v hDraft).2

-- Only behind a compiled program is the array made a second time.
theorem array_made_again :
    let compiled := effect compile planning
    let flushed := effect flush planning
    let sends := fun s : Session => (effect flush s).2.sent.length - s.sent.length
    compiled.1.isOk ∧ flushed.1.isOk ∧ compiled.2.allocation.returnedArrays ≠ [] ∧
      flushed.2.allocation.returnedArrays = [] ∧ sends compiled.2 = 1 ∧ sends flushed.2 = 0 := by
  decide +kernel

end Session

end QuantumNode
