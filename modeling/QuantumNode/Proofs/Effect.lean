import QuantumNode.Node.Run

/-
  Operations that may be refused as functions from a state to a result and a state, laws of tables,
  of registers and of the memories that nodes share with hosts, operations of a node that do not see
  part of its state, and runs of programs without a limit on the number of steps: a program says for
  every position what is done there and where it goes on.
-/

namespace QuantumNode
open Table

abbrev core (op : Op) (operands : List Operand) : Instr := .op .core op operands none

-- Operations on a state; a refused one leaves the state that it had reached.
abbrev Stateful (σ : Type) := ExceptT Fault (StateM σ)

variable {σ α β : Type} {x : Stateful σ α} {s : σ} {a : α}

-- What an operation answers from a state, and the state it leaves.
def effect (x : Stateful σ α) (s : σ) : Except Fault α × σ := x.run s

@[simp] theorem effect_pure (a : α) (s : σ) : effect (pure a) s = (.ok a, s) := rfl

@[simp] theorem effect_throw (f : Fault) (s : σ) :
    effect (throw f : Stateful σ α) s = (.error f, s) :=
  rfl

@[simp] theorem effect_get (s : σ) : effect get s = (.ok s, s) := rfl

@[simp] theorem effect_set (s t : σ) : effect (set t) s = (.ok ⟨⟩, t) := rfl

@[simp] theorem effect_modify (f : σ → σ) (s : σ) : effect (modify f) s = (.ok ⟨⟩, f s) := rfl

@[simp] theorem effect_lift (c : Checked α) (s : σ) : effect (liftM c : Stateful σ α) s = (c, s) :=
  rfl

theorem demand_ok {condition : Bool} {fault : Fault} {a : Unit}
    (hDemand : demand condition fault = .ok a) : condition = true := by
  cases condition with
  | true => rfl
  | false => cases hDemand

-- An operation goes on only if the one before it answers.
theorem effect_bind (x : Stateful σ α) (f : α → Stateful σ β) (s : σ) :
    effect (x >>= f) s = match effect x s with
      | (.ok a, t) => effect (f a) t
      | (.error e, t) => (.error e, t) := by
  change ExceptT.bindCont f (effect x s).1 (effect x s).2 = _
  rcases effect x s with ⟨_ | _, t⟩ <;> rfl

theorem effect_of_toOption
    (hDone : (effect x s).1.toOption = some a) : effect x s = (.ok a, (effect x s).2) := by
  generalize effect x s = ended at hDone
  rcases ended with ⟨e | b, t⟩ <;> cases hDone
  rfl

-- What answers has answered at every step.
theorem of_bind_ok (hEffect : effect (x >>= f) s = (.ok b, u)) :
    ∃ a t, effect x s = (.ok a, t) ∧ effect (f a) t = (.ok b, u) := by
  rw [effect_bind] at hEffect
  rcases hFirst : effect x s with ⟨e | a, t⟩ <;> rw [hFirst] at hEffect
  · cases hEffect
  · exact ⟨a, t, rfl, hEffect⟩

-- What answers in two steps has answered at both.
theorem of_binds_ok {γ : Type} {f : α → Stateful σ β} {g : α → β → Stateful σ γ} {v : σ} {c : γ}
    (hEffect : effect (x >>= fun a => f a >>= g a) s = (.ok c, v)) :
    ∃ a t, effect x s = (.ok a, t) ∧
      ∃ b u, effect (f a) t = (.ok b, u) ∧ effect (g a b) u = (.ok c, v) := by
  rcases of_bind_ok hEffect with ⟨a, t, hFirst, hLater⟩
  exact ⟨a, t, hFirst, of_bind_ok hLater⟩

theorem effect_lift_ok {c : Checked α} {t : σ}
    (hEffect : effect (liftM c : Stateful σ α) s = (.ok a, t)) : c = .ok a ∧ t = s := by
  cases c with
  | error e => cases hEffect
  | ok b =>
    cases hEffect
    exact ⟨rfl, rfl⟩

theorem of_lift_bind_ok {c : Checked α} {f : α → Stateful σ β} {u : σ} {b : β}
    (hEffect : effect (liftM c >>= f) s = (.ok b, u)) :
    ∃ a, c = .ok a ∧ effect (f a) s = (.ok b, u) := by
  rcases of_bind_ok hEffect with ⟨a, t, hLift, hRest⟩
  rcases effect_lift_ok hLift with ⟨rfl, rfl⟩
  exact ⟨a, rfl, hRest⟩

theorem effect_get_bind (f : σ → Stateful σ β) (s : σ) : effect (get >>= f) s = effect (f s) s :=
  rfl

-- What holds before the first round of a loop and is kept by each holds behind it.
theorem effect_forIn_ok {γ : Type} {body : γ → PUnit → Stateful σ (ForInStep PUnit)}
    (Inv : List γ → σ → Prop) (hStep :
      ∀ done x s t step, Inv done s → effect (body x ⟨⟩) s = (.ok step, t) →
        step = .yield ⟨⟩ ∧ Inv (done ++ [x]) t)
    {xs : List γ} {t : σ} {a : PUnit} (hStart : Inv [] s)
    (hEffect : effect (forIn xs ⟨⟩ body) s = (.ok a, t)) : Inv xs t := by
  have hRounds :
      ∀ done s, Inv done s → effect (forIn xs ⟨⟩ body) s = (.ok a, t) → Inv (done ++ xs) t := by
    clear hStart hEffect
    induction xs with
    | nil =>
      rintro done s hDone ⟨⟩
      rw [List.append_nil]
      exact hDone
    | cons x rest ih =>
      intro done s hDone hEffect
      rw [List.forIn_cons] at hEffect
      rcases of_bind_ok hEffect with ⟨step, u, hHere, hLater⟩
      rcases hStep done x s u step hDone hHere with ⟨rfl, hKept⟩
      have hRest := ih _ _ hKept hLater
      rwa [List.append_assoc] at hRest
  exact hRounds [] s hStart hEffect

theorem effect_tryCatch (x : Stateful σ α) (f : Fault → Stateful σ α) (s : σ) :
    effect (tryCatch x f) s = match effect x s with
      | (.ok a, t) => (.ok a, t)
      | (.error e, t) => effect (f e) t := by
  unfold effect
  rw [ExceptT.run_tryCatch]
  simp only [bind, StateT.bind]
  rcases x.run s with ⟨_ | _, t⟩ <;> rfl

-- What is refused for another reason is refused.
theorem effect_of_tryCatch {f : Fault → Stateful σ α}
    (hRefused : ∀ e t, ∃ e' t', effect (f e) t = (.error e', t'))
    (hEffect : effect (tryCatch x f) s = (.ok a, t)) : effect x s = (.ok a, t) := by
  rw [effect_tryCatch] at hEffect
  rcases hFirst : effect x s with ⟨e | b, u⟩ <;> rw [hFirst] at hEffect
  · rcases hRefused e u with ⟨_, _, hThrown⟩
    cases hThrown.symm.trans hEffect
  · exact hEffect

-- The last operation is carried out even if the first one is refused.
theorem effect_tryFinally (x : Stateful σ α) (y : Stateful σ β) (s : σ) :
    effect (tryFinally x y) s = match effect x s with
      | (.ok a, t) =>
        (match effect y t with
          | (.ok _, u) => (.ok a, u)
          | (.error f, u) => (.error f, u))
      | (.error e, t) =>
        (match effect y t with
          | (.ok _, u) => (.error e, u)
          | (.error f, u) => (.error f, u)) := by
  simp only [effect, tryFinally, tryFinally', ExceptT.run_map, ExceptT.run_mk]
  simp only [Functor.map, StateT.map, bind, StateT.bind]
  change _ = match x s with
    | (.ok a, t) => _
    | (.error e, t) => _
  rcases x s with ⟨e | a, t⟩
  all_goals
    change _ = match y t with
      | (.ok _, u) => _
      | (.error f, u) => _
    rcases hLast : y t with ⟨f | b, u⟩ <;> simp only [hLast] <;> rfl

theorem effect_tryFinally_ok (hEffect : effect (tryFinally x y) s = (.ok a, u)) :
    ∃ b t, effect x s = (.ok a, t) ∧ effect y t = (.ok b, u) := by
  rw [effect_tryFinally] at hEffect
  rcases hFirst : effect x s with ⟨e | _, t⟩ <;> rw [hFirst] at hEffect <;> dsimp only at hEffect
  all_goals rcases hLast : effect y t with ⟨f | b, u'⟩ <;> rw [hLast] at hEffect <;> cases hEffect
  exact ⟨b, t, rfl, hLast⟩

namespace Checked

theorem bind_ok {x : Checked α} {f : α → Checked β} {b : β} (hBind : (x >>= f) = .ok b) :
    ∃ a, x = .ok a ∧ f a = .ok b := by
  cases x with
  | error fault => cases hBind
  | ok a => exact ⟨a, rfl, hBind⟩

theorem of_isOk {x : Checked α} (hOk : x.isOk) : ∃ a, x = .ok a := by
  cases x with
  | error fault => cases hOk
  | ok a => exact ⟨a, rfl⟩

theorem binds_ok {γ : Type} {x : Checked α} {f : α → Checked β} {g : α → β → Checked γ} {c : γ}
    (hBind : (x >>= fun a => f a >>= g a) = .ok c) :
    ∃ a, x = .ok a ∧ ∃ b, f a = .ok b ∧ g a b = .ok c := by
  rcases bind_ok hBind with ⟨a, hFirst, hLater⟩
  exact ⟨a, hFirst, bind_ok hLater⟩

theorem answer_ok {x : Checked α} {f : α → β} {b : β} (hBind : (x >>= fun a => pure (f a)) = .ok b) :
    ∃ a, x = .ok a ∧ f a = b := by
  rcases bind_ok hBind with ⟨a, hFirst, hDone⟩
  exact ⟨a, hFirst, Except.ok.inj hDone⟩

end Checked

namespace Table
variable {κ : Type} [DecidableEq κ]

@[simp] theorem get?_put_self (key : κ) (value : α) (t : Table κ α) :
    get? key (put key value t) = some value := by
  fun_induction put key value t with
  | case1 | case2 => simp [get?]
  | case3 _ _ _ hKey ih => simp [get?, hKey, ih]

theorem get?_put_of_ne (hOther : other ≠ key) (value : α) (t : Table κ α) :
    get? other (put key value t) = get? other t := by
  fun_induction put key value t with
  | case1 | case2 => simp [get?, hOther.symm]
  | case3 _ _ _ _ ih => simp [get?, ih]

theorem get?_erase_of_ne (hOther : other ≠ key) (t : Table κ α) :
    get? other (erase key t) = get? other t := by
  fun_induction erase key t with
  | case1 => rfl
  | case2 => simp [get?, hOther.symm]
  | case3 _ _ _ _ ih => simp [get?, ih]

end Table

namespace Registers
variable {r : Reg} (regs : Registers)

def value (r : Reg) : Option Int := (get? r regs).join

theorem get_eq (r : Reg) : regs.get r = (checkPlace r).bind fun _ => .ok (regs.value r) := rfl

theorem set_eq (hardware : Bool) (regs : Registers) (r : Reg) (v : Int) :
    regs.set hardware r (some v) = (checkPlace r).bind fun _ =>
        (Block.checkWidth hardware v).bind fun _ => .ok (put r (some v) regs) :=
  rfl

theorem get_ok {regs : Registers} {v : Option Int} (hGet : regs.get r = .ok v) :
    checkPlace r = .ok () ∧ v = regs.value r := by
  rcases Checked.bind_ok hGet with ⟨_, hPlace, ⟨⟩⟩
  exact ⟨hPlace, rfl⟩

theorem set_ok {hardware : Bool} {regs regs' : Registers} {v : Int}
    (hSet : regs.set hardware r (some v) = .ok regs') :
    Block.checkWidth hardware v = .ok () ∧ regs' = put r (some v) regs := by
  rcases Checked.bind_ok hSet with ⟨_, _, hRest⟩
  rcases Checked.bind_ok hRest with ⟨_, hWidth, ⟨⟩⟩
  exact ⟨hWidth, rfl⟩

@[simp] theorem value_put_self (r : Reg) (v : Option Int) : value (put r v regs) r = v := by
  simp [value]

theorem value_put_of_ne (hOther : other ≠ r) (v : Option Int) (regs : Registers) :
    value (put r v regs) other = value regs other := by
  simp [value, get?_put_of_ne hOther]

end Registers

namespace MemoryBank

theorem get_set (b : MemoryBank) (n k : Nat) (m : SharedMemory) :
    (b.set n m).get k = if k = n ∧ n < b.memories.size then m else b.get k := by
  unfold MemoryBank.get MemoryBank.set
  by_cases hSame : k = n
  · subst hSame
    by_cases hBound : k < b.memories.size <;> simp [hBound]
  · simp only [hSame, false_and, if_false]
    rw [Array.getD_eq_getD_getElem?, Array.getD_eq_getD_getElem?,
      Array.getElem?_setIfInBounds_ne (Ne.symm hSame)]

-- A new memory is the last one, and its key is new.
theorem create_eq (b : MemoryBank) (node : String) (key : Option Int) :
    b.create node key = if b.find? node key = none then
        .ok (⟨b.memories.push .empty, put (node, key) b.memories.size b.registry⟩, b.memories.size)
      else .error (.node (.memoryExists node (keyText key))) := by
  unfold create find? has
  cases get? (node, key) b.registry <;> rfl

-- A new memory is like one that is missing.
theorem get_create {b b' : MemoryBank} {node : String} {key : Option Int} {n : Nat}
    (hCreate : b.create node key = .ok (b', n)) (k : Nat) : b'.get k = b.get k := by
  rw [create_eq] at hCreate
  split at hCreate
  · cases hCreate
    simp only [MemoryBank.get, Array.getD_eq_getD_getElem?, Array.getElem?_push]
    split
    · rename_i hLast
      rw [hLast, Array.getElem?_eq_none (Nat.le_refl _)]
      rfl
    · rfl
  · cases hCreate

end MemoryBank

namespace Node
variable {app : Int} {s t : Node}

def registerOf (s : Node) (app : Int) (r : Reg) : Option Int :=
  (get? app s.registers).bind fun regs => regs.value r

theorem effect_appOf {sub : Nat} (hHosted : get? sub s.subroutines = some (some app)) :
    effect (appOf sub) s = (.ok app, s) := by
  simp [appOf, effect_bind, hHosted]

theorem regsOf_ok {regs : Registers} (hEffect : effect (regsOf app) s = (.ok regs, t)) :
    t = s ∧ get? app s.registers = some regs := by
  rw [regsOf, effect_get_bind] at hEffect
  split at hEffect
  · rename_i _ hFound
    cases hEffect
    exact ⟨rfl, hFound⟩
  · cases hEffect

theorem getReg_ok {r : Reg} {v : Option Int} (hEffect : effect (getReg app r) s = (.ok v, t)) :
    t = s ∧ v = s.registerOf app r := by
  rcases of_bind_ok hEffect with ⟨regs, s₁, hRegs, hValue⟩
  rcases regsOf_ok hRegs with ⟨rfl, hFound⟩
  rcases effect_lift_ok hValue with ⟨hGet, rfl⟩
  refine ⟨rfl, ?_⟩
  rw [registerOf, hFound]
  exact (Registers.get_ok hGet).2

theorem ofRegister_ok (hRead : effect (ofRegister app o) s = (.ok v, t)) :
    t = s ∧ ∃ r, o = .reg r ∧ s.registerOf app r = v := by
  cases o with
  | reg r =>
    rcases getReg_ok hRead with ⟨rfl, rfl⟩
    exact ⟨rfl, r, rfl, rfl⟩
  | _ => cases hRead

-- A value that has to be defined is one of a register.
theorem demandValue_ok (hRead : effect (demandValue ofRegister app o) s = (.ok v, t)) :
    t = s ∧ ∃ r, s.registerOf app r = some v := by
  rcases of_bind_ok hRead with ⟨found, _, hFound, hDone⟩
  rcases ofRegister_ok hFound with ⟨rfl, r, _, rfl⟩
  cases hValue : registerOf _ app r <;> rw [hValue] at hDone <;> cases hDone
  exact ⟨rfl, r, hValue⟩

end Node

end QuantumNode

namespace QuantumNode.Node
variable {α β : Type} (s : Node)

-- The registers of applications, what the host is shown, and how instructions are counted and
-- recorded.
structure Hidden where
  registers : Table Int Registers
  bank : MemoryBank
  budget : Nat
  logger : Logger

def hidden : Hidden := ⟨s.registers, s.bank, s.budget, s.logger⟩

-- A state with another hidden part.
def cover (h : Hidden) : Node :=
  { s with
    registers := h.registers
    bank := h.bank
    budget := h.budget
    logger := h.logger }

@[simp] theorem hidden_cover (h : Hidden) : (s.cover h).hidden = h := rfl

@[simp] theorem cover_hidden : s.cover s.hidden = s := rfl

-- An operation is blind if it neither reads nor changes the hidden part of the state, nor changes
-- which application a subroutine belongs to.
structure Blind (x : NodeM α) : Prop where
  covers : ∀ s h, effect x (s.cover h) = ((effect x s).1, (effect x s).2.cover h)
  keeps : ∀ s, (effect x s).2.subroutines = s.subroutines

namespace Blind

protected theorem pure (a : α) : Blind (pure a : NodeM α) := ⟨fun _ _ => rfl, fun _ => rfl⟩

protected theorem throw (f : Fault) : Blind (throw f : NodeM α) := ⟨fun _ _ => rfl, fun _ => rfl⟩

protected theorem lift (c : Checked α) : Blind (liftM c : NodeM α) := ⟨fun _ _ => rfl, fun _ => rfl⟩

protected theorem bind (hFirst : Blind x) (hThen : ∀ a, Blind (f a)) : Blind (x >>= f) := by
  constructor
  · intro s h
    rw [effect_bind, effect_bind, hFirst.covers s h]
    rcases effect x s with ⟨_ | a, t⟩
    · rfl
    · exact (hThen a).covers t h
  · intro s
    have hKept := hFirst.keeps s
    rw [effect_bind]
    generalize effect x s = outcome at hKept
    rcases outcome with ⟨_ | a, t⟩
    · exact hKept
    · exact ((hThen a).keeps t).trans hKept

-- An operation may depend on the visible part of the state.
protected theorem get {f : Node → NodeM β} (hSame : ∀ s h, f (s.cover h) = f s)
    (hThen : ∀ s, Blind (f s)) : Blind (get >>= f) := by
  constructor
  · intro s h
    rw [effect_bind, effect_get]
    dsimp only
    rw [hSame]
    exact (hThen s).covers s h
  · intro s
    exact (hThen s).keeps s

protected theorem modify (hSame : ∀ s h, g (s.cover h) = (g s).cover h)
    (hKept : ∀ s, (g s).subroutines = s.subroutines) : Blind (modify g) := by
  constructor
  · intro s h
    rw [effect_modify, effect_modify, hSame]
  · exact hKept

theorem hidden_eq (hBlind : Blind x) (s : Node) : (effect x s).2.hidden = s.hidden := by
  have hSelf := hBlind.covers s s.hidden
  rw [cover_hidden] at hSelf
  rw [hSelf, hidden_cover]

end Blind

end QuantumNode.Node

namespace QuantumNode
variable {instrs : Array Instr} {r : Except Fault Unit} {line : Int} {limit sub : Nat}
  {s t u : Node}

-- What is done at a position, with the position at which the program goes on. A position without
-- anything to do is an end.
abbrev Machine (κ : Type) := κ → Option (NodeM κ)

namespace Machine
variable {κ : Type} {p : Machine κ}

-- A run from a position and a state to its end, with the positions and states that it went through,
-- how it ended and the state that it left.
inductive Run (p : Machine κ) : κ → Node → List (κ × Node) → Except Fault Unit → Node → Prop
  | done {k : κ} {s : Node} : p k = none → Run p k s [] (.ok ()) s
  | fail {k : κ} {s t : Node} {x : NodeM κ} {e : Fault} :
      p k = some x → effect x s = (.error e, t) →
      Run p k s [(k, s)] (.error e) t
  | next {k k' : κ} {s t u : Node} {x : NodeM κ}
      {visits : List (κ × Node)} {r : Except Fault Unit} :
      p k = some x → effect x s = (.ok k', t) →
      Run p k' t visits r u → Run p k s ((k, s) :: visits) r u

-- Steps of a run up to a position that need not be an end.
inductive Path (p : Machine κ) : κ → Node → List (κ × Node) → κ → Node → Prop
  | here {k : κ} {s : Node} : Path p k s [] k s
  | next {k k' k'' : κ} {s t u : Node} {x : NodeM κ} {visits : List (κ × Node)} :
      p k = some x → effect x s = (.ok k', t) →
      Path p k' t visits k'' u → Path p k s ((k, s) :: visits) k'' u

-- A run goes on behind a step that is answered.
theorem Run.of_step (hRun : Run p k s visits r u) (hAt : p k = some x)
    (hStep : effect x s = (.ok k', t)) :
    ∃ more, visits = (k, s) :: more ∧ Run p k' t more r u := by
  cases hRun with
  | done hEnd => cases hEnd.symm.trans hAt
  | fail hAt' hFail =>
    cases hAt.symm.trans hAt'
    cases hStep.symm.trans hFail
  | next hAt' hStep' hRest =>
    cases hAt.symm.trans hAt'
    cases hStep.symm.trans hStep'
    exact ⟨_, rfl, hRest⟩

namespace Path
variable {visits : List (κ × Node)} {k' k : κ}

theorem append (hFirst : Path p k s visits k' t) (hThen : Path p k' t more k'' u) :
    Path p k s (visits ++ more) k'' u := by
  induction hFirst with
  | here => exact hThen
  | next hAt hStep _ ih => exact .next hAt hStep (ih hThen)

theorem run (hFirst : Path p k s visits k' t) (hThen : Run p k' t more r u) :
    Run p k s (visits ++ more) r u := by
  induction hFirst with
  | here => exact hThen
  | next hAt hStep _ ih => exact .next hAt hStep (ih hThen)

theorem rest (hFirst : Path p k s visits k' t) (hWhole : Run p k s whole r u) :
    ∃ more, whole = visits ++ more ∧ Run p k' t more r u := by
  induction hFirst generalizing whole with
  | here => exact ⟨whole, rfl, hWhole⟩
  | next hAt hStep _ ih =>
    rcases hWhole.of_step hAt hStep with ⟨_, rfl, hRest⟩
    rcases ih hRest with ⟨more, rfl, hRun⟩
    exact ⟨more, rfl, hRun⟩

end Path

-- A run is steps up to an end, or up to a step that fails.
theorem Run.parts (hRun : Run p k s visits r u) :
    (∃ k', Path p k s visits k' u ∧ p k' = none ∧ r = .ok ()) ∨
      ∃ before k' t x e, visits = before ++ [(k', t)] ∧ Path p k s before k' t ∧
        p k' = some x ∧ effect x t = (.error e, u) ∧ r = .error e := by
  induction hRun with
  | done hEnd => exact .inl ⟨_, .here, hEnd, rfl⟩
  | fail hAt hFail => exact .inr ⟨[], _, _, _, _, rfl, .here, hAt, hFail, rfl⟩
  | next hAt hStep _ ih =>
    rcases ih with ⟨k', hPath, hEnd, hResult⟩ | ⟨before, k', t, x, e, rfl, hPath, hLast⟩
    · exact .inl ⟨k', .next hAt hStep hPath, hEnd, hResult⟩
    · exact .inr ⟨_ :: before, k', t, x, e, rfl, .next hAt hStep hPath, hLast⟩

theorem Run.unique (hOne : Run p k s visits r t) (hOther : Run p k s others q u) :
    visits = others ∧ r = q ∧ t = u := by
  induction hOne generalizing others with
  | done hEnd =>
    cases hOther with
    | done _ => exact ⟨rfl, rfl, rfl⟩
    | fail hAt _ | next hAt _ _ => cases hEnd.symm.trans hAt
  | fail hAt hFail =>
    cases hOther with
    | done hEnd => cases hEnd.symm.trans hAt
    | fail hAt' hFail' =>
      cases hAt.symm.trans hAt'
      cases hFail.symm.trans hFail'
      exact ⟨rfl, rfl, rfl⟩
    | next hAt' hStep' _ =>
      cases hAt.symm.trans hAt'
      cases hFail.symm.trans hStep'
  | next hAt hStep _ ih =>
    rcases hOther.of_step hAt hStep with ⟨_, rfl, hRest⟩
    rcases ih hRest with ⟨rfl, hResult, hState⟩
    exact ⟨rfl, hResult, hState⟩

end Machine

namespace Node

def program (sub : Nat) (instrs : Array Instr) : Machine Int := fun line =>
  if (instrs.size : Int) ≤ line then none
  else some do step sub line (← fetch instrs line)

theorem program_eq_some (hAt : program sub is line = some x) :
    ¬ (is.size : Int) ≤ line ∧ x = (do step sub line (← fetch is line)) := by
  by_cases hBehind : (is.size : Int) ≤ line
  · simp [program, hBehind] at hAt
  · rw [program, if_neg hBehind] at hAt
    exact ⟨hBehind, (Option.some.inj hAt).symm⟩

-- Runs that both reach their end or fail for causes of one category.
def SameEnd (r q : Except Fault Unit) : Prop :=
  q.mapError Fault.category = r.mapError Fault.category

theorem SameEnd.error {e f : Fault} (hCategory : f.category = e.category) :
    SameEnd (.error e) (.error f) :=
  congrArg Except.error hCategory

def withBudget (limit : Nat) (s : Node) : Node := { s with budget := limit }

theorem effect_giveUp {α : Type} (limit : Nat) (f : Fault) (s : Node) :
    effect (giveUp limit f : NodeM α) s = (.error f, withBudget limit s) :=
  rfl

theorem runFrom_of_run (hRun : Machine.Run (program sub is) line s visits r t)
    (hLimit : visits.length ≤ limit) :
    ∃ r' left, effect (runFrom sub is limit line) s = (r', withBudget left t) ∧ SameEnd r r' := by
  induction hRun generalizing limit with
  | @done line s hEnd =>
    have hBehind : (is.size : Int) ≤ line :=
      Decidable.of_not_not fun hInside => by simp [program, hInside] at hEnd
    unfold runFrom
    rw [if_pos hBehind]
    exact ⟨_, limit, rfl, rfl⟩
  | @fail line s t x e hAt hFail =>
    rcases program_eq_some hAt with ⟨hInside, rfl⟩
    rw [effect_bind] at hFail
    unfold runFrom
    rw [if_neg hInside, effect_bind, effect_tryCatch]
    generalize effect (fetch is line) s = fetched at hFail
    rcases fetched with ⟨f | i, s'⟩
    · cases hFail
      exact ⟨_, _, effect_giveUp limit _ t, rfl⟩
    · cases limit with
      | zero => exact absurd hLimit (by simp)
      | succ limit =>
        dsimp only at hFail ⊢
        rw [effect_bind, effect_tryCatch, hFail]
        exact ⟨_, _, effect_giveUp limit _ t, rfl⟩
  | @next line line' s t u x visits r hAt hStep _ ih =>
    rcases program_eq_some hAt with ⟨hInside, rfl⟩
    rw [effect_bind] at hStep
    unfold runFrom
    rw [if_neg hInside, effect_bind, effect_tryCatch]
    generalize effect (fetch is line) s = fetched at hStep
    rcases fetched with ⟨f | i, s'⟩
    · cases hStep
    · cases limit with
      | zero => exact absurd hLimit (by simp)
      | succ limit =>
        dsimp only at hStep ⊢
        rw [effect_bind, effect_tryCatch, hStep]
        exact ih (by simpa using hLimit)

-- What runs to its end is a run without an error.
theorem run_of_runFrom_ok (hRun : effect (runFrom sub is limit line) s = (.ok (), t)) :
    ∃ visits t' left, Machine.Run (program sub is) line s visits (.ok ()) t' ∧
      t = withBudget left t' := by
  induction limit using Nat.strongRecOn generalizing line s with
  | _ limit ih =>
    unfold runFrom at hRun
    by_cases hBehind : (is.size : Int) ≤ line
    · rw [if_pos hBehind] at hRun
      cases hRun
      exact ⟨_, _, _, .done (if_pos hBehind), rfl⟩
    · rw [if_neg hBehind] at hRun
      rcases of_bind_ok hRun with ⟨i, s', hFetch, hGoing⟩
      cases limit with
      | zero => cases hGoing
      | succ limit =>
        rcases of_bind_ok hGoing with ⟨line', s'', hStep, hRest⟩
        have hFetch' := effect_of_tryCatch (fun _ _ => ⟨_, _, rfl⟩) hFetch
        have hStep' := effect_of_tryCatch (fun _ _ => ⟨_, _, rfl⟩) hStep
        rcases ih limit (Nat.lt_succ_self _) hRest with ⟨visits, t', left, hRuns, hEnd⟩
        refine ⟨_, t', left, .next (if_neg hBehind) ?_ hRuns, hEnd⟩
        rw [effect_bind, hFetch']
        exact hStep'

end Node

end QuantumNode
