import Mathlib.Data.List.Nodup
import QuantumNode.Proofs.Assembly.Layout

/-
  The registers that constants are put into. They are the first standard registers that are no
  operand of any command, as many as a command has constants. Registers inside of indices are not
  looked at. The instructions of an assembled draft write to these and to those that its commands
  write to.
-/

open List

namespace QuantumNode.Constants
open Command Nat

---- Registers of a draft

-- The numbers of a command that are put into registers.
def numbersOf (c : Command) : List Int := constantsFrom c.op 0 c.operands

def most : List Item → Nat
  | [] => 0
  | .label _ _ :: rest => most rest
  | .command c :: rest => max (numbersOf c).length (most rest)

variable (used : List Reg) (items : List Item)

-- Standard registers that are not among those in use.
def unusedBy : List Reg := (Reg.ofBank .r).filter fun r => !used.contains r

-- Standard registers that are no operand of a command.
def spare : List Reg := unusedBy (Draft.registers items)

-- The registers for the numbers of a command.
def temporaries (c : Command) : List Reg := (spare items).take (numbersOf c).length

-- Registers in the indices and in the bounds of array operands.
def indexed : List Reg := items.flatMap fun i => i.operands.flatMap Draft.indexRegs

-- No number gets a register that occurs in some command.
def Fresh : Prop :=
  ∀ c, Item.command c ∈ items → ∀ r ∈ temporaries items c,
    r ∉ Draft.registers items ∧ r ∉ indexed items

-- A draft with numbers in registers: before each command, its numbers are put into its temporaries
-- one by one.
inductive Filled (whole : List Item) : List Item → List Item → Prop
  | nil : Filled whole [] []
  | label {name : String} {line : Option HostLine} {rest rest' : List Item} :
      Filled whole rest rest' →
      Filled whole (.label name line :: rest) (.label name line :: rest')
  | command {c : Command} {held : List (Reg × Int)} {sets rest rest' : List Item}
      {operands : List Operand} :
      held.map Prod.fst = temporaries whole c → held.map Prod.snd = numbersOf c →
      Forall₂ IsSet held sets → Forall₂ (Replaced held) c.operands operands →
      Filled whole rest rest' →
      Filled whole (.command c :: rest) (sets ++ .command { c with operands := operands } :: rest')

theorem unusedBy_nodup : (unusedBy used).Nodup := Nodup.filter _ (by decide)

theorem mem_unusedBy {used : List Reg} {r : Reg} (hMember : r ∈ unusedBy used) :
    r.bank = .r ∧ r ∉ used := by
  have hBank : ∀ q ∈ Reg.ofBank .r, q.bank = .r := by decide
  rcases mem_filter.mp hMember with ⟨hStandard, hUnused⟩
  exact ⟨hBank r hStandard, by simpa using hUnused⟩

theorem length_le_most {items : List Item} {c : Command} (hMember : Item.command c ∈ items) :
    (numbersOf c).length ≤ most items := by
  fun_induction most items with
  | case1 => exact absurd hMember not_mem_nil
  | case2 _ _ _ ih => exact ih (by simpa using hMember)
  | case3 d rest ih =>
    rcases mem_cons.mp hMember with hHere | hLater
    · cases hHere
      exact Nat.le_max_left _ _
    · exact Nat.le_trans (ih hLater) (Nat.le_max_right _ _)

-- Some command has the most numbers, if there are any.
theorem exists_most {items : List Item} (hSome : 0 < most items) :
    ∃ c, Item.command c ∈ items ∧ (numbersOf c).length = most items := by
  fun_induction most items with
  | case1 => exact absurd hSome (Nat.lt_irrefl 0)
  | case2 _ _ _ ih =>
    rcases ih hSome with ⟨c, hMember, hLength⟩
    exact ⟨c, mem_cons_of_mem _ hMember, hLength⟩
  | case3 d rest ih =>
    by_cases hLarger : most rest ≤ (numbersOf d).length
    · exact ⟨d, mem_cons_self, (Nat.max_eq_left hLarger).symm⟩
    · have hSmaller : (numbersOf d).length ≤ most rest := by omega
      rcases ih (by omega) with ⟨c, hMember, hLength⟩
      exact ⟨c, mem_cons_of_mem _ hMember, hLength.trans (Nat.max_eq_right hSmaller).symm⟩

---- Registers that are drawn

-- Registers are drawn from a list in its order: up to some number of them, if there are that many.
def Draws {α : Type} (total : Nat) (x : Checked (α × Pending)) : Prop :=
  if total ≤ (unusedBy used).length then
    ∃ a pending, x = .ok (a, pending) ∧ pending.temps = (unusedBy used).take total
  else x = .error (.language .noRegistersLeft)

section Draws
variable {used : List Reg} {k total : Nat} {pending : Pending}
namespace Draws
variable {α β : Type}

theorem pure (hTemps : pending.temps = (unusedBy used).take k) (hRoom : k ≤ (unusedBy used).length)
    (a : α) : Draws used k (.ok (a, pending)) := by
  unfold Draws
  rw [if_pos hRoom]
  exact ⟨a, pending, rfl, hTemps⟩

theorem bind {x : Checked (α × Pending)} {f : α × Pending → Checked (β × Pending)}
    (hFirst : Draws used k x) (hMore : k ≤ total)
    (hThen : ∀ a pending, pending.temps = (unusedBy used).take k → k ≤ (unusedBy used).length →
        Draws used total (f (a, pending))) : Draws used total (x >>= f) := by
  unfold Draws at hFirst
  by_cases hRoom : k ≤ (unusedBy used).length
  · rw [if_pos hRoom] at hFirst
    rcases hFirst with ⟨a, pending, rfl, hTemps⟩
    exact hThen a pending hTemps hRoom
  · rw [if_neg hRoom] at hFirst
    unfold Draws
    rw [if_neg (by omega), hFirst]
    rfl

end Draws

-- The first register that is not drawn yet is the next one.
theorem find?_undrawn {regs : List Reg} (hDistinct : regs.Nodup) (k : Nat) :
    regs.find? (fun r => !(regs.take k).contains r) = regs[k]? := by
  by_cases hRoom : k < regs.length
  · have hSplit : regs = regs.take k ++ regs[k] :: regs.drop (k + 1) := by
      rw [← drop_eq_getElem_cons hRoom, take_append_drop]
    have hNew : regs[k] ∉ regs.take k := by
      intro hDrawn
      rw [hSplit] at hDistinct
      exact (nodup_append.mp hDistinct).2.2 _ hDrawn _ mem_cons_self rfl
    rw [getElem?_eq_getElem hRoom]
    exact find?_eq_some_iff_append.mpr
      ⟨by simpa using hNew, _, _, hSplit, fun r hr => by simpa using hr⟩
  · rw [getElem?_eq_none (Nat.le_of_not_lt hRoom), take_of_length_le (Nat.le_of_not_lt hRoom)]
    exact find?_eq_none.mpr fun r hr => by simpa using hr

variable (hTemps : pending.temps = (unusedBy used).take k)
include hTemps
theorem fresh?_eq : fresh? (used ++ pending.temps) = (unusedBy used)[k]? := by
  rw [← find?_undrawn (unusedBy_nodup used) k, fresh?, hTemps]
  simp [unusedBy]

theorem draws_assign (line : Option HostLine) (value : Operand) :
    Draws used (k + 1) (assign used line pending value) := by
  unfold Draws assign
  rw [fresh?_eq hTemps]
  by_cases hRoom : k + 1 ≤ (unusedBy used).length
  · rw [if_pos hRoom, getElem?_eq_getElem hRoom]
    exact ⟨_, _, rfl, by rw [hTemps, take_add_one, getElem?_eq_getElem hRoom]; rfl⟩
  · rw [if_neg hRoom, getElem?_eq_none (by omega)]

variable (hRoom : k ≤ (unusedBy used).length)
include hRoom
theorem draws_replaceIndex (line : Option HostLine) (i : Index) :
    Draws used (k + i.constants.length) (replaceIndex used line pending i) := by
  cases i with
  | reg r => exact .pure hTemps hRoom _
  | int v | shown v _ =>
    exact (draws_assign hTemps line _).bind (Nat.le_refl _) fun r _ hAfter hLeft =>
      .pure hAfter hLeft _

theorem draws_replaceOperand (c : Command) (place : Nat) (o : Operand) :
    Draws used (k + (o.constants c.op place).length) (replaceOperand used c place pending o) := by
  cases o with
  | int v | shown v _ =>
    simp only [replaceOperand, Operand.constants]
    by_cases hKeeps : keeps c.op place = true
    · rw [if_pos hKeeps, if_pos hKeeps]
      exact .pure hTemps hRoom _
    · rw [if_neg hKeeps, if_neg hKeeps]
      exact (draws_assign hTemps c.line _).bind (Nat.le_refl _) fun r _ hAfter hLeft =>
        .pure hAfter hLeft _
  | entry a i =>
    exact (draws_replaceIndex hTemps hRoom c.line i).bind (Nat.le_refl _)
      fun _ _ hAfter hLeft => .pure hAfter hLeft _
  | slice a lo hi =>
    have hAll : k + (lo.constants ++ hi.constants).length =
        k + lo.constants.length + hi.constants.length := by
      rw [length_append, Nat.add_assoc]
    simp only [Operand.constants, hAll]
    refine (draws_replaceIndex hTemps hRoom c.line lo).bind (le_add_right _ _) ?_
    intro _ _ hMiddle hHalf
    exact (draws_replaceIndex hMiddle hHalf c.line hi).bind (Nat.le_refl _)
      fun _ _ hAfter hLeft => .pure hAfter hLeft _
  | _ => exact .pure hTemps hRoom _

theorem draws_replaceOperands (c : Command) (place : Nat) (os : List Operand) :
    Draws used (k + (constantsFrom c.op place os).length)
      (replaceOperands used c place pending os) := by
  induction os generalizing k place pending with
  | nil => exact .pure hTemps hRoom _
  | cons o rest ih =>
    have hAll : k + (constantsFrom c.op place (o :: rest)).length =
        k + (o.constants c.op place).length + (constantsFrom c.op (place + 1) rest).length := by
      rw [constantsFrom, length_append, Nat.add_assoc]
    rw [hAll]
    refine (draws_replaceOperand hTemps hRoom c place o).bind (le_add_right _ _) ?_
    intro _ _ hMiddle hHalf
    exact (ih hMiddle hHalf (place + 1)).bind (Nat.le_refl _) fun _ _ hAfter hLeft =>
      .pure hAfter hLeft _

end Draws

section Drafts
variable {whole : List Item}

theorem replaceCommand_cases (whole : List Item) (c : Command) :
    if (numbersOf c).length ≤ (spare whole).length then
      ∃ held sets operands, held.map Prod.fst = temporaries whole c ∧
        held.map Prod.snd = numbersOf c ∧ Forall₂ IsSet held sets ∧
        Forall₂ (Replaced held) c.operands operands ∧
        replaceCommand (Draft.registers whole) c =
          .ok (sets ++ [.command { c with operands := operands }])
    else replaceCommand (Draft.registers whole) c = .error (.language .noRegistersLeft) := by
  have hDraws : Draws (Draft.registers whole) (0 + (numbersOf c).length)
      (replaceOperands (Draft.registers whole) c 0 ⟨[], []⟩ c.operands) :=
    draws_replaceOperands rfl (zero_le _) c 0 c.operands
  rw [Nat.zero_add] at hDraws
  unfold Draws at hDraws
  rw [← spare] at hDraws
  by_cases hRoom : (numbersOf c).length ≤ (spare whole).length
  · rw [if_pos hRoom] at hDraws ⊢
    rcases hDraws with ⟨operands, pending, hReplace, hTemps⟩
    rcases replaceOperands_spec hReplace with ⟨held, hExtends, hValues, hReplaced⟩
    rcases hExtends.sets with ⟨sets, hSets, hAreSets⟩
    refine ⟨held, sets, operands, hExtends.temps.symm.trans hTemps, hValues, hAreSets,
      hReplaced, ?_⟩
    rw [replaceCommand, hReplace]
    exact congrArg (fun these => Except.ok (these ++ _)) hSets
  · rw [if_neg hRoom] at hDraws ⊢
    rw [replaceCommand, hDraws]
    rfl

-- A draft is filled if there is room for its numbers, and refused otherwise.
theorem replaceItems_cases (whole items : List Item) :
    if most items ≤ (spare whole).length then
      ∃ filled, replaceItems (Draft.registers whole) items = .ok filled ∧ Filled whole items filled
    else
      replaceItems (Draft.registers whole) items = .error (.language .noRegistersLeft) := by
  fun_induction most items with
  | case1 => exact ⟨[], rfl, .nil⟩
  | case2 name line rest ih =>
    split at ih
    · rename_i hRoom
      rcases ih with ⟨filled, hReplace, hFilled⟩
      rw [if_pos hRoom]
      exact ⟨.label name line :: filled, by rw [replaceItems, hReplace]; rfl, .label hFilled⟩
    · rename_i hFull
      rw [if_neg hFull, replaceItems, ih]
      rfl
  | case3 c rest ih =>
    have hCommand := replaceCommand_cases whole c
    by_cases hHere : (numbersOf c).length ≤ (spare whole).length
    · rw [if_pos hHere] at hCommand
      rcases hCommand with ⟨_, sets, _, hTemps, hValues, hSets, hReplaced, hBlock⟩
      by_cases hRest : most rest ≤ (spare whole).length
      · rw [if_pos hRest] at ih
        rcases ih with ⟨filled, hReplace, hFilled⟩
        rw [if_pos (Nat.max_le.mpr ⟨hHere, hRest⟩)]
        refine ⟨_, ?_, .command hTemps hValues hSets hReplaced hFilled⟩
        rw [replaceItems, hBlock, hReplace]
        exact congrArg Except.ok (append_assoc sets _ filled)
      · rw [if_neg hRest] at ih
        rw [if_neg fun hAll => hRest (Nat.max_le.mp hAll).2, replaceItems, hBlock, ih]
        rfl
    · rw [if_neg hHere] at hCommand
      rw [if_neg fun hAll => hHere (Nat.max_le.mp hAll).1, replaceItems, hCommand]
      rfl

-- Numbers go into the first spare registers, as many as the most numbers of a command.
theorem mem_temporaries {r : Reg} :
    (∃ c, Item.command c ∈ whole ∧ r ∈ temporaries whole c) ↔
      r ∈ (spare whole).take (most whole) := by
  constructor
  · rintro ⟨c, hMember, hr⟩
    exact (take_prefix_take_left (length_le_most hMember)).subset hr
  · intro hr
    have hSome : 0 < most whole := by
      by_contra hNone
      rw [Nat.eq_zero_of_not_pos hNone] at hr
      exact absurd hr not_mem_nil
    rcases exists_most hSome with ⟨c, hMember, hLength⟩
    refine ⟨c, hMember, ?_⟩
    rw [temporaries, hLength]
    exact hr

-- Registers are fresh exactly if no index is among the first spare ones.
theorem fresh_iff (whole : List Item) :
    Fresh whole ↔ ∀ r ∈ (spare whole).take (most whole), r ∉ indexed whole := by
  constructor
  · intro hFresh r hr
    rcases mem_temporaries.mpr hr with ⟨c, hMember, hHere⟩
    exact (hFresh c hMember r hHere).2
  · intro hIndexed c hMember r hr
    exact ⟨(mem_unusedBy (mem_of_mem_take hr)).2, hIndexed r (mem_temporaries.mp ⟨c, hMember, hr⟩)⟩

/-
  Numbers are replaced exactly if there are as many spare registers as a command has numbers. Then
  the numbers of a command go, in their order, into the first spare registers, which are distinct
  and no operand of any command. They are fresh exactly if no index and no bound is among the first
  spare registers, as many as the most numbers of a command; so they are if each standard register
  in an index is an operand of some command too.
-/
theorem replace_temporaries
    (items : List Item) :
    (most items ≤ (spare items).length →
      ∃ filled, replace items = .ok filled ∧ Filled items items filled) ∧
    ((spare items).length < most items → replace items = .error (.language .noRegistersLeft)) ∧
    (∀ c, Item.command c ∈ items → (temporaries items c).Nodup ∧
      ∀ r ∈ temporaries items c, r.bank = .r ∧ r ∉ Draft.registers items) ∧
    (Fresh items ↔ ∀ r ∈ (spare items).take (most items), r ∉ indexed items) ∧
    ((∀ r ∈ indexed items, r.bank = .r → r ∈ Draft.registers items) → Fresh items) := by
  have hReplace := replaceItems_cases items items
  refine ⟨fun hRoom => ?_, fun hFull => ?_, fun c _ => ⟨?_, ?_⟩, fresh_iff items, fun hAlso => ?_⟩
  · rw [if_pos hRoom] at hReplace
    exact hReplace
  · rw [if_neg (Nat.not_le_of_lt hFull)] at hReplace
    exact hReplace
  · exact (unusedBy_nodup _).sublist (take_sublist _ _)
  · exact fun r hr => mem_unusedBy (mem_of_mem_take hr)
  · refine (fresh_iff items).mpr fun r hr hIndexed => ?_
    have hSpare := mem_unusedBy (mem_of_mem_take hr)
    exact hSpare.2 (hAlso r hIndexed hSpare.1)

end Drafts

-- Numbers beside registers that a command sets.
def bounded : List Item := [
  command .set [.reg ⟨.r, 0⟩, .int 1],
  command .store [.int 5, .entry 0 (.reg ⟨.r, 0⟩)],
  command .waitAll [.slice 0 (.int 0) (.int 3)]]

theorem replace_temporaries_bounded :
    (∃ filled, replace bounded = .ok filled ∧ Filled bounded bounded filled) ∧ Fresh bounded ∧
      temporaries bounded (.plain .waitAll [.slice 0 (.int 0) (.int 3)] none) =
        [⟨.r, 1⟩, ⟨.r, 2⟩] := by
  rcases replace_temporaries bounded with ⟨hFilled, _, _, _, hFresh⟩
  exact ⟨hFilled (by decide), hFresh (by decide), by decide⟩

-- A number is stored at a place that a register holds.
def storing : List Item := [command .store [.int 5, .entry 0 (.reg ⟨.r, 0⟩)]]

-- The register of the place is also the one for the number, and so the number is stored at the
-- place of its own value.
theorem index_overwritten :
    replace storing = .ok [command .set [.reg ⟨.r, 0⟩, .int 5],
      command .store [.reg ⟨.r, 0⟩, .entry 0 (.reg ⟨.r, 0⟩)]] ∧
    ¬ Fresh storing := by
  refine ⟨rfl, fun hFresh => ?_⟩
  exact (hFresh _ mem_cons_self ⟨.r, 0⟩ (by decide)).2 (by decide)

---- Numbers that are left

section Left

variable {used : List Reg} {c : Command} {pending pending' : Pending}

theorem constants_replaceIndex {line : Option HostLine} {i : Index}
    (hReplace : replaceIndex used line pending i = .ok (i', pending')) : i'.constants = [] := by
  cases i with
  | reg r =>
    cases hReplace
    rfl
  | int v | shown v _ =>
    rcases Checked.bind_ok hReplace with ⟨_, _, ⟨⟩⟩
    rfl

theorem constants_replaceOperand {o : Operand}
    (hReplace : replaceOperand used c place pending o = .ok (o', pending')) :
    o'.constants c.op place = [] := by
  cases o with
  | int v | shown v _ =>
    simp only [replaceOperand] at hReplace
    split at hReplace
    · cases hReplace
      simp [Operand.constants, *]
    · rcases Checked.bind_ok hReplace with ⟨_, _, ⟨⟩⟩
      rfl
  | entry a i =>
    rcases Checked.bind_ok hReplace with ⟨_, hIndex, ⟨⟩⟩
    exact constants_replaceIndex hIndex
  | slice a lo hi =>
    rcases Checked.binds_ok hReplace with ⟨_, hLow, _, hHigh, ⟨⟩⟩
    rw [Operand.constants, constants_replaceIndex hLow, constants_replaceIndex hHigh, nil_append]
  | _ =>
    cases hReplace
    rfl

theorem constantsFrom_replaceOperands
    (hReplace : replaceOperands used c place pending os = .ok (os', pending')) :
    constantsFrom c.op place os' = [] := by
  induction os generalizing place pending os' with
  | nil =>
    cases hReplace
    rfl
  | cons o rest ih =>
    rcases Checked.binds_ok hReplace with ⟨_, hFirst, _, hRest, ⟨⟩⟩
    rw [constantsFrom, constants_replaceOperand hFirst, ih hRest, nil_append]

theorem numbersOf_set (hSets : Forall₂ IsSet held sets) (hMember : Item.command d ∈ sets) :
    numbersOf d = [] := by
  induction hSets with
  | nil => cases hMember
  | cons hSet _ ih =>
    rcases mem_cons.mp hMember with rfl | hMember
    · rcases hSet with ⟨_, _, ⟨⟩, rfl | ⟨_, rfl⟩⟩ <;> rfl
    · exact ih hMember

-- No command has a number left that is put into a register.
theorem numbersOf_replaceItems {items : List Item} (hReplace : replaceItems used items = .ok filled)
    (hMember : Item.command d ∈ filled) : numbersOf d = [] := by
  fun_induction replaceItems used items generalizing filled with
  | case1 =>
    cases hReplace
    cases hMember
  | case2 _ _ _ ih =>
    rcases Checked.bind_ok hReplace with ⟨_, hRest, ⟨⟩⟩
    exact ih hRest (by simpa using hMember)
  | case3 c _ ih =>
    rcases Checked.binds_ok hReplace with ⟨_, hHere, _, hRest, ⟨⟩⟩
    rcases Checked.bind_ok hHere with ⟨⟨os, _⟩, hOperands, ⟨⟩⟩
    have hLast : constantsFrom c.op 0 os = [] := constantsFrom_replaceOperands hOperands
    rcases replaceOperands_spec hOperands with ⟨_, hExtends, _, _⟩
    rcases hExtends.sets with ⟨sets, hSets, hAreSets⟩
    rw [hSets, nil_append, mem_append, mem_append, mem_singleton] at hMember
    rcases hMember with (hMember | ⟨⟨⟩⟩) | hMember
    · exact numbersOf_set hAreSets hMember
    · exact hLast
    · exact ih hRest hMember

end Left

/-
  Numbers are refused exactly if a command has more of them than
  there are spare registers.  Otherwise the result is filled, and no
  command of it has a number left.
-/
theorem refused_exactly (items : List Item) :
    (replace items = .error (.language .noRegistersLeft) ↔
      ∃ c, Item.command c ∈ items ∧ (spare items).length < (numbersOf c).length) ∧
    (replace items = .error (.language .noRegistersLeft) ∨ ∃ filled, replace items = .ok filled ∧
      Filled items items filled ∧ ∀ c, Item.command c ∈ filled → numbersOf c = []) := by
  have hReplace := replaceItems_cases items items
  split at hReplace
  · rename_i hRoom
    rcases hReplace with ⟨filled, hReplace, hFilled⟩
    refine ⟨⟨fun hRefused => ?_, ?_⟩,
      .inr ⟨filled, hReplace, hFilled, fun _ => numbersOf_replaceItems hReplace⟩⟩
    · cases hReplace.symm.trans hRefused
    · rintro ⟨c, hMember, hMore⟩
      have := length_le_most hMember
      omega
  · rename_i hFull
    have hSome : 0 < most items := by omega
    rcases exists_most hSome with ⟨c, hMember, hLength⟩
    exact ⟨⟨fun _ => ⟨c, hMember, by omega⟩, fun _ => hReplace⟩, .inl hReplace⟩

end QuantumNode.Constants

namespace QuantumNode.Assembly
open Draft Constants
variable {c : Command} {d : Draft} {expanded items whole : List Item} {f : Flavour}
  {held : List (Reg × Int)} {o o' : Operand} {os fitted replaced : List Operand}
  {p : Subroutine} {r : Reg} {slots : List Slot} {table : List (String × Nat)}

-- An operand of a command and what it is in the instruction.
structure Carried (held : List (Reg × Int)) (o o' : Operand) : Prop where
  register : ∀ r, o = .reg r → o' = .reg r
  held : ∀ r, o' = .reg r → o = .reg r ∨ r ∈ held.map Prod.fst
  number : ∀ v, o.number? = some v → o'.number? = some v ∨ ∃ r, o' = .reg r

-- Instructions for commands: registers that the draft does not name are set to the constants of a
-- command in front of it.
inductive Built (whole : List Item) : List Item → List Instr → Prop
  | nil : Built whole [] []
  | label {name : String} {line : Option HostLine} {rest : List Item} {code : List Instr} :
      Built whole rest code → Built whole (.label name line :: rest) code
  | command {c : Command} {held : List (Reg × Int)} {loads : List Instr} {operands : List Operand}
      {family : Family} {rest : List Item} {code : List Instr} :
      held.map Prod.fst = temporaries whole ⟨c.op, [], c.inputs, c.line⟩ →
      Forall₂ IsSetInstr held loads → Forall₂ (Carried held) c.inputs operands →
      Slot.fitAll? c.op.slots operands = some operands → Built whole rest code →
      Built whole (.command c :: rest) (loads ++ .op family c.op operands c.line :: code)

theorem carried_of_fit {slot : Slot} {x : Operand} (hReplaced : Replaced held o x)
    (hFit : slot.fit? (Labels.resolveOperand table x) = some o') :
    Carried held o o' ∧ slot.fit? o' = some o' := by
  cases hReplaced with
  | same hPlain =>
    cases o with
    | label name =>
      simp only [Labels.resolveOperand] at hFit
      split at hFit
      · cases slot <;> cases hFit <;> exact ⟨⟨by rintro _ ⟨⟩, by rintro _ ⟨⟩, by rintro _ ⟨⟩⟩, rfl⟩
      · cases slot <;> cases hFit
    | reg r =>
      cases slot <;> cases hFit
      exact ⟨⟨fun _ => id, fun _ => .inl, by rintro _ ⟨⟩⟩, rfl⟩
    | _ =>
      cases slot <;> cases hFit <;> exact ⟨⟨by rintro _ ⟨⟩, by rintro _ ⟨⟩, fun _ => .inl⟩, rfl⟩
  | @held _ v r hConstant hHeld =>
    cases slot <;> cases hFit
    refine ⟨⟨?_, ?_, fun _ _ => .inr ⟨r, rfl⟩⟩, rfl⟩
    · rcases hConstant with rfl | ⟨_, rfl⟩ <;> rintro _ ⟨⟩
    · rintro _ ⟨⟩
      exact .inr (mem_map.mpr ⟨_, hHeld, rfl⟩)
  | entry _ | slice _ _ =>
    cases slot <;> cases hFit
    exact ⟨⟨by rintro _ ⟨⟩, by rintro _ ⟨⟩, by rintro _ ⟨⟩⟩, rfl⟩

theorem carried_of_fitAll (hReplaced : Forall₂ (Replaced held) os replaced)
    (hFit : Slot.fitAll? slots (replaced.map (Labels.resolveOperand table)) = some fitted) :
    Forall₂ (Carried held) os fitted ∧ Slot.fitAll? slots fitted = some fitted := by
  induction hReplaced generalizing slots fitted with
  | nil =>
    cases slots with
    | nil =>
      cases hFit
      exact ⟨.nil, rfl⟩
    | cons _ _ => cases hFit
  | cons hFirst _ ih =>
    rcases fitAll_cons hFit with ⟨slot, slots, first, rest, rfl, rfl, hFirstFit, hRestFit⟩
    rcases carried_of_fit hFirst hFirstFit with ⟨hCarried, hAgain⟩
    rcases ih hRestFit with ⟨hOthers, hRest⟩
    exact ⟨.cons hCarried hOthers, by simp [Slot.fitAll?, hAgain, hRest]⟩

theorem built_of_build (hFilled : Filled whole (items.map liftArgs) expanded)
    (hBuild : buildItems f (resolved table expanded) = .ok is) : Built whole items is := by
  induction items generalizing expanded is with
  | nil =>
    cases hFilled
    cases hBuild
    exact .nil
  | cons item rest ih =>
    cases item with
    | label name line =>
      cases hFilled with
      | label hRest => exact .label (ih hRest hBuild)
    | command c =>
      cases hFilled with
      | command hTemps _ hSets hReplaced hRest =>
        rcases build_block hSets hBuild with ⟨loads, family, fitted, code, rfl, hLoads, hFit, hCode, _⟩
        rcases carried_of_fitAll hReplaced hFit with ⟨hCarried, hFits⟩
        exact .command hTemps hLoads hCarried hFits (ih hRest hCode)

theorem built_of_assemble (hAssemble : assemble .full f d = .ok p) :
    Built (d.items.map liftArgs) d.items p.instrs := by
  rcases expanded_of_assemble hAssemble with ⟨_, _, _, _, hBuild, hReplace⟩
  have hCases := replaceItems_cases (d.items.map liftArgs) (d.items.map liftArgs)
  split at hCases
  · rcases hCases with ⟨_, hFound, hFilled⟩
    cases hFound.symm.trans hReplace
    exact built_of_build hFilled hBuild
  · cases hCases.symm.trans hReplace

end QuantumNode.Assembly
