import QuantumNode.Proofs.Draft.Meaning

/-
  Commands in step: a command with the instruction for it, whose constants are held by registers,
  and a command with itself on nodes that agree on the registers it reads. An assembled draft has,
  for each command, the instructions that set its constants, each in a register of its own which the
  program does not name, and the instruction for the command.
-/

open List

namespace QuantumNode.Draft
open Node Node.Linked Registers
variable {sub : Nat} {app : Int} {V : View} {o : Operand}

theorem ofOperand_number (hNumber : o.number? = some v) : ofOperand app o = pure (some v) := by
  cases o with
  | reg q => exact absurd hNumber (by simp [Operand.number?])
  | _ => simp [ofOperand, hNumber]

theorem sim_heldNumber (hNumber : o.number? = some v) (hPlace : checkPlace r = .ok ())
    (hHeld : (r, v) ∈ V.held) : Sim (Linked sub app V) Eq (ofOperand app o) (getReg app r) := by
  rw [ofOperand_number hNumber]
  exact sim_held hPlace hHeld

-- Operands with the same value: a named register on both sides, or a number and a register that
-- holds it.
inductive ReadMatch (V : View) : Operand → Operand → Prop
  | reg {r : Reg} : V.named r → ReadMatch V (.reg r) (.reg r)
  | held {o : Operand} {v : Int} {r : Reg} :
      o.number? = some v → checkPlace r = .ok () → ¬ V.shown r →
      (r, v) ∈ V.held → ReadMatch V o (.reg r)

def assembled (V : View) : Pairing := ⟨ReadMatch V, IndexMatch V⟩

theorem assembled_sound : (assembled V).Sound sub app V ofOperand ofRegister := by
  constructor
  · intro o _ hMatch
    cases hMatch with
    | reg hNamed => exact sim_getReg hNamed
    | held hNumber hPlace _ hHeld => exact sim_heldNumber hNumber hPlace hHeld
  · intro i j hMatch
    exact sim_evalIndex hMatch

theorem sim_showValue (hPlace : checkPlace r = .ok ()) (hUnseen : ¬ V.shown r) (v : Int) :
    Sim (Linked sub app V) Eq (showValue app v) (returnReg app r v) := by
  refine SimTo.bind_eq (sim_blind (Blind.trait.sharedOf app)) fun n => ?_
  intro s t hLinked
  have hMemory := hLinked.hidden.bank.memories n
  simp only [effect_bind, effect_get, hLinked.hardware_eq, setRegister_eq, hPlace]
  cases Block.checkWidth s.hardware v with
  | error e => exact ⟨rfl, hLinked⟩
  | ok _ =>
    refine ⟨trivial, ⟨congrArg (withShared n _) hLinked.visible, hLinked.hosted,
      ⟨hLinked.hidden.own, hLinked.hidden.others,
        hLinked.hidden.bank.set_right n ⟨hMemory.arrays, fun q hShown => ?_⟩,
        hLinked.hidden.off⟩⟩⟩
    have hOther : q ≠ r := fun hSame => hUnseen (hSame ▸ hShown)
    exact (value_put_of_ne hOther _ _).trans (hMemory.registers q hShown)

theorem sim_returned (family : Family) (hMatch : ReadMatch V o o') :
    Sim (Linked sub app V) Eq (carryOut sub .retReg [o]) (perform sub family .retReg [o']) := by
  cases hMatch with
  | reg hNamed => exact sim_performReturn ofOperand ofRegister .core family hNamed
  | @held _ v r hNumber hPlace hUnseen hHeld =>
    have hShown : carryOut sub .retReg [o] = (do
        let app ← appOf sub
        let v ← pure (some v)
        v.elim (throw (.node (.returnUndefined r.text))) fun v => do
          showValue app v
          return none) := by
      simp [carryOut, returned?, hNumber]
    rw [hShown]
    refine sim_forApp (SimTo.bind_eq (sim_held hPlace hHeld) fun v => ?_)
    cases v with
    | none => exact SimTo.throw rfl
    | some v => exact (sim_showValue hPlace hUnseen v).done

-- What is not returned is carried out as an operation.
theorem carryOut_eq (hReturn : op ≠ .retReg) (os : List Operand) :
    carryOut sub op os = performWith ofOperand sub .core op os := by
  unfold carryOut
  have hNothing : returned? op os = none := by
    unfold returned?
    split
    · exact absurd rfl hReturn
    · rfl
  rw [hNothing]

-- A command and its instruction have the same effect.
theorem sim_carryOut (family : Family)
    (hMatch : MatchFrom (assembled V) (target? op) 0 op.slots os os')
    (hStraight : forks? op os = none) (hFree : ∀ r ∈ outputs op os, ∀ p ∈ V.held, p.1 ≠ r) :
    Sim (Linked sub app V) Eq (carryOut sub op os) (perform sub family op os') := by
  by_cases hReturn : op = .retReg
  · subst hReturn
    rcases hMatch with _ | ⟨hValue, ⟨⟩⟩
    exact sim_returned family hValue.toRead
  · rw [carryOut_eq hReturn]
    exact (assembled_sound.sim_performWith .core family hMatch hStraight hReturn hFree).relax
      fun _ _ hLinked => hLinked.mono (.writing V _)

end QuantumNode.Draft

namespace QuantumNode.Constants
variable {c : Command} {i : Index} {held more : List (Reg × Int)} {place : Nat} {o o' : Operand}
  {line : Option HostLine}

variable {used : List Reg} {pending pending' : Pending}

-- A constant as it stands in a draft.
def IsConstant (o : Operand) (v : Int) : Prop := o = .int v ∨ ∃ words, o = .shown v words

-- A command that sets a register to a constant.
def IsSet (p : Reg × Int) (i : Item) : Prop :=
  ∃ n line, i = .command (.plain .set [.reg p.1, n] line) ∧ IsConstant n p.2

-- The registers and commands that are added for constants.
structure Extends (used : List Reg) (pending pending' : Pending)
    (new : List (Reg × Int)) : Prop where
  temps : pending'.temps = pending.temps ++ new.map Prod.fst
  sets : ∃ items, pending'.sets = pending.sets ++ items ∧ Forall₂ IsSet new items
  fresh : ∀ p ∈ new, p.1 ∈ Reg.ofBank .r ∧ p.1 ∉ used
  distinct : pending.temps.Nodup → pending'.temps.Nodup

namespace Extends
variable {pending'' : Pending}
variable {new : List (Reg × Int)}

protected theorem refl (used : List Reg) (pending : Pending) : Extends used pending pending [] := by
  exact ⟨by simp, ⟨[], by simp, .nil⟩, by simp, id⟩

protected theorem trans (hFirst : Extends used pending pending' new)
    (hThen : Extends used pending' pending'' more) :
    Extends used pending pending'' (new ++ more) := by
  rcases hFirst.sets with ⟨items, hItems, hSets⟩
  rcases hThen.sets with ⟨items', hItems', hSets'⟩
  refine ⟨?_, ⟨items ++ items', ?_, rel_append hSets hSets'⟩,
    forall_mem_append.mpr ⟨hFirst.fresh, hThen.fresh⟩, hThen.distinct ∘ hFirst.distinct⟩
  · rw [hThen.temps, hFirst.temps, map_append, append_assoc]
  · rw [hItems', hItems, append_assoc]

end Extends

theorem assign_spec (hConstant : IsConstant value v)
    (hAssign : assign used line pending value = .ok (r, pending')) :
    Extends used pending pending' [(r, v)] := by
  unfold assign at hAssign
  split at hAssign
  · cases hAssign
  · rename_i q hFresh
    cases hAssign
    have hMember := mem_of_find?_eq_some hFresh
    have hFree := find?_some hFresh
    simp only [Bool.not_eq_true', contains_eq_mem, mem_append,
      decide_eq_false_iff_not, not_or] at hFree
    refine ⟨rfl, ⟨_, rfl, .cons ⟨value, line, rfl, hConstant⟩ .nil⟩,
      forall_mem_singleton.mpr ⟨hMember, hFree.1⟩, fun hDistinct => ?_⟩
    refine nodup_append.mpr ⟨hDistinct, by simp, ?_⟩
    intro q hq p hp hSame
    rw [mem_singleton.mp hp] at hSame
    exact hFree.2 (hSame ▸ hq)

-- An index whose constant is held by a register.
inductive IndexReplaced (held : List (Reg × Int)) : Index → Index → Prop
  | reg (r : Reg) : IndexReplaced held (.reg r) (.reg r)
  | held {i : Index} {v : Int} {r : Reg} : i = .int v ∨ (∃ words, i = .shown v words) →
      (r, v) ∈ held → IndexReplaced held i (.reg r)

def isIndexed : Operand → Bool
  | .entry _ _ | .slice _ _ _ => true
  | _ => false

-- An operand whose constants are held by registers.
inductive Replaced (held : List (Reg × Int)) : Operand → Operand → Prop
  | same {o : Operand} : isIndexed o = false → Replaced held o o
  | held {o : Operand} {v : Int} {r : Reg} :
      IsConstant o v → (r, v) ∈ held → Replaced held o (.reg r)
  | entry {a : Int} {i j : Index} : IndexReplaced held i j → Replaced held (.entry a i) (.entry a j)
  | slice {a : Int} {lo lo' hi hi' : Index} :
      IndexReplaced held lo lo' → IndexReplaced held hi hi' →
      Replaced held (.slice a lo hi) (.slice a lo' hi')

theorem IndexReplaced.mono (hSubset : held ⊆ more) (hReplaced : IndexReplaced held i j) :
    IndexReplaced more i j := by
  cases hReplaced with
  | reg r => exact .reg r
  | held hValue hHeld => exact .held hValue (hSubset hHeld)

theorem Replaced.mono (hSubset : held ⊆ more) (hReplaced : Replaced held o o') :
    Replaced more o o' := by
  cases hReplaced with
  | same hPlain => exact .same hPlain
  | held hValue hHeld => exact .held hValue (hSubset hHeld)
  | entry hIndex => exact .entry (hIndex.mono hSubset)
  | slice hLow hHigh => exact .slice (hLow.mono hSubset) (hHigh.mono hSubset)

theorem replaceIndex_spec (hReplace : replaceIndex used line pending i = .ok (i', pending')) :
    ∃ new, Extends used pending pending' new ∧
      new.map Prod.snd = i.constants ∧ IndexReplaced new i i' := by
  cases i with
  | reg r =>
    cases hReplace
    exact ⟨[], Extends.refl used _, rfl, .reg r⟩
  | int v =>
    rcases Checked.bind_ok hReplace with ⟨⟨r, after⟩, hAssign, ⟨⟩⟩
    exact ⟨[(r, v)], assign_spec (.inl rfl) hAssign, rfl, .held (.inl rfl) (mem_singleton_self _)⟩
  | shown v words =>
    rcases Checked.bind_ok hReplace with ⟨⟨r, after⟩, hAssign, ⟨⟩⟩
    exact ⟨[(r, v)], assign_spec (.inr ⟨words, rfl⟩) hAssign, rfl,
      .held (.inr ⟨words, rfl⟩) (mem_singleton_self _)⟩

theorem replaceOperand_spec
    (hReplace : replaceOperand used c place pending o = .ok (o', pending')) :
    ∃ new, Extends used pending pending' new ∧
      new.map Prod.snd = o.constants c.op place ∧ Replaced new o o' := by
  have hConstant : ∀ (value : Operand) (v : Int), IsConstant value v →
      (if keeps c.op place then .ok (value, pending) else do
          let assigned ← assign used c.line pending value
          return (.reg assigned.1, assigned.2) : Checked (Operand × Pending)) =
        .ok (o', pending') →
      ∃ new, Extends used pending pending' new ∧
        new.map Prod.snd = (if keeps c.op place then [] else [v]) ∧
        Replaced new value o' := by
    intro value v hIs hDone
    split at hDone
    · rename_i hKeeps
      cases hDone
      refine ⟨[], Extends.refl used _, by simp [hKeeps], .same ?_⟩
      rcases hIs with rfl | ⟨words, rfl⟩ <;> rfl
    · rename_i hKeeps
      rcases Checked.bind_ok hDone with ⟨⟨r, after⟩, hAssign, ⟨⟩⟩
      exact ⟨[(r, v)], assign_spec hIs hAssign, by simp [hKeeps], .held hIs (mem_singleton_self _)⟩
  cases o with
  | int v => exact hConstant (.int v) v (.inl rfl) hReplace
  | shown v words => exact hConstant (.shown v words) v (.inr ⟨words, rfl⟩) hReplace
  | entry a i =>
    rcases Checked.bind_ok hReplace with ⟨⟨_, after⟩, hIndex, ⟨⟩⟩
    rcases replaceIndex_spec hIndex with ⟨new, hExtends, hValues, hReplaced⟩
    exact ⟨new, hExtends, hValues, .entry hReplaced⟩
  | slice a lo hi =>
    rcases Checked.binds_ok hReplace with ⟨_, hLow, ⟨_, after⟩, hHigh, ⟨⟩⟩
    rcases replaceIndex_spec hLow with ⟨new, hExtends, hValues, hReplaced⟩
    rcases replaceIndex_spec hHigh with ⟨more, hExtends', hValues', hReplaced'⟩
    refine ⟨new ++ more, hExtends.trans hExtends', ?_, .slice
      (hReplaced.mono (subset_append_left _ _))
      (hReplaced'.mono (subset_append_right _ _))⟩
    rw [map_append, hValues, hValues']
    rfl
  | _ =>
    cases hReplace
    exact ⟨[], Extends.refl used _, rfl, .same rfl⟩

theorem replaceOperands_spec
    (hReplace : replaceOperands used c place pending os = .ok (os', pending')) :
    ∃ new, Extends used pending pending' new ∧
      new.map Prod.snd = Command.constantsFrom c.op place os ∧
      Forall₂ (Replaced new) os os' := by
  induction os generalizing place pending os' with
  | nil =>
    cases hReplace
    exact ⟨[], Extends.refl used _, rfl, .nil⟩
  | cons o rest ih =>
    rcases Checked.binds_ok hReplace with ⟨_, hFirst, _, hRest, ⟨⟩⟩
    rcases replaceOperand_spec hFirst with ⟨new, hExtends, hValues, hReplaced⟩
    rcases ih hRest with ⟨more, hExtends', hValues', hReplaced'⟩
    refine ⟨new ++ more, hExtends.trans hExtends', ?_, .cons
      (hReplaced.mono (subset_append_left _ _))
      (hReplaced'.imp fun _ _ h => h.mono (subset_append_right _ _))⟩
    rw [map_append, hValues, hValues']
    rfl

end QuantumNode.Constants

namespace QuantumNode.Assembly
open Checked Labels
variable {c : Command} {d : Draft} {found : List (String × Nat)}
  {fitted os replaced : List Operand} {slots : List Slot} {n place : Nat} {s : Subroutine}

open Draft Constants Node
variable {f : Flavour} {held : List (Reg × Int)} {table : List (String × Nat)}
  {instrs : List Instr} {expanded items sets : List Item} {used : List Reg}

---- Expanded drafts

-- A command with its constants in registers, behind commands that set them.
structure Expands (used : List Reg) (c : Command) (held : List (Reg × Int)) (sets : List Item)
    (operands : List Operand) : Prop where
  sets : Forall₂ IsSet held sets
  values : held.map Prod.snd = c.constants
  fresh : ∀ p ∈ held, p.1 ∈ Reg.ofBank .r ∧ p.1 ∉ used
  distinct : (held.map Prod.fst).Nodup
  operands : Forall₂ (Replaced held) c.inputs operands

-- A draft with every command expanded.
inductive Expanded (used : List Reg) : List Item → List Item → Prop
  | nil : Expanded used [] []
  | label {name : String} {line : Option HostLine} {rest rest' : List Item} :
      Expanded used rest rest' →
      Expanded used (.label name line :: rest) (.label name line :: rest')
  | command {c : Command} {held : List (Reg × Int)} {sets rest rest' : List Item}
      {operands : List Operand} :
      Expands used c held sets operands → Expanded used rest rest' →
      Expanded used (.command c :: rest) (sets ++ .command ⟨c.op, [], operands, c.line⟩ :: rest')

theorem expands_of_replaceCommand
    (hReplace : replaceCommand used ⟨c.op, [], c.inputs, c.line⟩ = .ok items) :
    ∃ held sets os, Expands used c held sets os ∧
      items = sets ++ [.command ⟨c.op, [], os, c.line⟩] := by
  rcases bind_ok hReplace with ⟨⟨os, pending⟩, hOperands, ⟨⟩⟩
  rcases replaceOperands_spec hOperands with ⟨held, hExtends, hValues, hReplaced⟩
  rcases hExtends.sets with ⟨sets, hSets, hAreSets⟩
  have hTemps : pending.temps = held.map Prod.fst := hExtends.temps
  have hPending : pending.sets = sets := hSets
  refine ⟨held, sets, os, ⟨hAreSets, hValues, hExtends.fresh, ?_, hReplaced⟩, ?_⟩
  · rw [← hTemps]
    exact hExtends.distinct nodup_nil
  · rw [hPending]

theorem expanded_of_replaceItems
    (hReplace : replaceItems used (items.map liftArgs) = .ok expanded) :
    Expanded used items expanded := by
  induction items generalizing expanded with
  | nil =>
    cases hReplace
    exact .nil
  | cons item rest ih =>
    cases item with
    | label name line =>
      rcases answer_ok hReplace with ⟨rest', hRest, rfl⟩
      exact .label (ih hRest)
    | command c =>
      rcases binds_ok hReplace with ⟨_, hBlock, rest', hRest, ⟨⟩⟩
      rcases expands_of_replaceCommand hBlock with ⟨_, _, _, hExpands, rfl⟩
      rw [append_assoc]
      exact .command hExpands (ih hRest)

-- Arguments in brackets are not registers.
theorem registers_liftArgs (items : List Item) :
    registers (items.map liftArgs) = registers items := by
  induction items with
  | nil => rfl
  | cons item rest ih =>
    have hArgs : ∀ args : List Int, (args.map Operand.int).filterMap Operand.reg? = [] := by
      simp [Operand.reg?]
    simp only [Draft.registers, map_cons, flatMap_cons] at ih ⊢
    rw [ih]
    cases item with
    | label name line => rfl
    | command c => simp [liftArgs, Item.operands, hArgs]

theorem positionsFrom_sets (hSets : Forall₂ IsSet held sets) :
    positionsFrom found n (sets ++ rest) = positionsFrom found (n + held.length) rest := by
  induction hSets generalizing n with
  | nil => rfl
  | cons hSet _ ih =>
    rcases hSet with ⟨_, _, rfl, _⟩
    simp only [cons_append, positionsFrom, ih, length_cons]
    congr 1
    omega

theorem lookup_positionsFrom (hExpanded : Expanded used items expanded)
    (hTable : positionsFrom found n expanded = .ok table) (name : String) :
    table.lookup name = (found.lookup name).or ((before name items).map (n + ·)) := by
  induction hExpanded generalizing found n with
  | nil =>
    cases hTable
    simp [before]
  | @label other line rest rest' _ ih =>
    simp only [positionsFrom] at hTable
    split at hTable
    · cases hTable
    · rw [ih hTable, lookup_append]
      by_cases hSame : other = name
      · subst hSame
        simp [before]
      · have hOther : (name == other) = false := by simpa using Ne.symm hSame
        simp [before, hSame, lookup_cons, hOther]
  | @command c held sets rest rest' os hExpands _ ih =>
    rw [positionsFrom_sets hExpands.sets] at hTable
    have hSize : c.size = held.length + 1 := by rw [Command.size, ← hExpands.values, length_map]
    rw [ih hTable]
    simp only [before, Option.map_map]
    congr 2
    funext m
    simp only [Function.comp_apply]
    omega

---- Operands of instructions

-- What an assembled draft shares with the draft: the registers that are named.
def view (items : List Item) (held : List (Reg × Int)) : View := ⟨Named items, Named items, held⟩

-- Registers that hold constants: standard ones that are not named.
structure Spare (items : List Item) (held : List (Reg × Int)) : Prop where
  place : ∀ p ∈ held, Registers.checkPlace p.1 = .ok ()
  unnamed : ∀ p ∈ held, ¬ Named items p.1

theorem spare_of_fresh (hFresh : ∀ p ∈ held, p.1 ∈ Reg.ofBank .r ∧ p.1 ∉ registers items) :
    Spare items held := by
  have hStandard : ∀ r ∈ Reg.ofBank .r, r.bank = .r ∧ Registers.checkPlace r = .ok () := by decide
  constructor
  · intro p hp
    exact (hStandard p.1 (hFresh p hp).1).2
  · intro p hp hNamed
    exact (hFresh p hp).2 (hNamed (hStandard p.1 (hFresh p hp).1).1)

theorem indexMatch_of_replaced (hSpare : Spare items held) (hReplaced : IndexReplaced held i j)
    (hNamed : ∀ r, i = .reg r → Named items r) : Linked.IndexMatch (view items held) i j := by
  cases hReplaced with
  | reg r => exact .reg (hNamed r rfl)
  | held hValue hHeld => exact .held hValue (hSpare.place _ hHeld) hHeld

theorem match_of_fit {written : Bool} {slot : Slot} {o replaced fitted : Operand}
    (hSpare : Spare items held) (hTable : ∀ name, table.lookup name = before name items)
    (hReplaced : Replaced held o replaced)
    (hFit : slot.fit? (resolveOperand table replaced) = some fitted)
    (hNamed : ∀ r, o = .reg r → Named items r) (hIndices : ∀ r ∈ indexRegs o, Named items r)
    (hWritten : written = true → o.number? = none) :
    Match (assembled (view items held)) written slot (valued items o) fitted := by
  cases hReplaced with
  | same hPlain =>
    cases o with
    | reg r =>
      cases slot <;> cases hFit
      cases written with
      | true => exact .written
      | false => exact .read (.reg (hNamed r rfl))
    | label name =>
      simp only [resolveOperand, hTable name] at hFit
      simp only [valued]
      generalize before name items = position at hFit
      cases position with
      | none => cases slot <;> cases hFit
      | some n => cases slot <;> cases hFit <;> exact .number rfl rfl fun _ => rfl
    | addr a =>
      cases slot <;> cases hFit
      exact .addr
    | entry a i | slice a lo hi => cases hPlain
    | template name =>
      cases slot <;> cases hFit
      exact .number rfl rfl (by rintro ⟨⟩)
    | _ => cases slot <;> cases hFit <;> exact .number rfl rfl fun _ => rfl
  | @held _ v r hConstant hHeld =>
    cases slot <;> cases hFit
    obtain ⟨hNumber, hValued⟩ : o.number? = some v ∧ valued items o = o := by
      rcases hConstant with rfl | ⟨words, rfl⟩ <;> exact ⟨rfl, rfl⟩
    cases written with
    | true => exact absurd (hWritten rfl) (by simp [hNumber])
    | false =>
      rw [hValued]
      exact .read (.held hNumber (hSpare.place _ hHeld) (hSpare.unnamed _ hHeld) hHeld)
  | @entry a i j hIndex =>
    cases slot <;> cases hFit
    refine .entry (indexMatch_of_replaced hSpare hIndex ?_)
    rintro r rfl
    exact hIndices r (by simp [indexRegs])
  | @slice a lo lo' hi hi' hLow hHigh =>
    cases slot <;> cases hFit
    refine .slice (indexMatch_of_replaced hSpare hLow ?_) (indexMatch_of_replaced hSpare hHigh ?_)
    · rintro r rfl
      cases hi <;> exact hIndices r (by simp [indexRegs])
    · rintro r rfl
      cases lo <;> exact hIndices r (by simp [indexRegs])

theorem fitAll_cons (hFit : Slot.fitAll? slots (o :: os) = some fitted) :
    ∃ slot others first rest, slots = slot :: others ∧ fitted = first :: rest ∧
      slot.fit? o = some first ∧ Slot.fitAll? others os = some rest := by
  cases slots with
  | nil => cases hFit
  | cons slot others =>
    simp only [Slot.fitAll?] at hFit
    split at hFit
    · rename_i first rest hFirst hRest
      cases hFit
      exact ⟨slot, others, first, rest, rfl, rfl, hFirst, hRest⟩
    · cases hFit

theorem matchFrom_of_fitAll (hSpare : Spare items held)
    (hTable : ∀ name, table.lookup name = before name items)
    (hReplaced : Forall₂ (Replaced held) os replaced)
    (hFit : Slot.fitAll? slots (replaced.map (resolveOperand table)) = some fitted)
    (hNamed : ∀ r, Operand.reg r ∈ os → Named items r)
    (hIndices : ∀ o ∈ os, ∀ r ∈ indexRegs o, Named items r)
    (hWritten : ∀ j o, target = some (place + j) → os[j]? = some o → o.number? = none) :
    MatchFrom (assembled (view items held)) target place slots (os.map (valued items)) fitted := by
  induction hReplaced generalizing place slots fitted with
  | nil =>
    cases slots with
    | nil =>
      cases hFit
      exact .nil
    | cons _ _ => cases hFit
  | @cons o o' os os' hFirst _ ih =>
    rcases fitAll_cons hFit with ⟨slot, slots, first, rest, rfl, rfl, hFirstFit, hRestFit⟩
    refine .cons (match_of_fit hSpare hTable hFirst hFirstFit ?_ ?_ ?_) (ih hRestFit ?_ ?_ ?_)
    · rintro r rfl
      exact hNamed r mem_cons_self
    · exact hIndices o mem_cons_self
    · intro hTarget
      exact hWritten 0 o (by simpa using hTarget) rfl
    · exact fun r hr => hNamed r (mem_cons_of_mem _ hr)
    · exact fun o ho => hIndices o (mem_cons_of_mem _ ho)
    · intro j o hTarget ho
      exact hWritten (j + 1) o (by rw [hTarget]; congr 1; omega) (by simpa using ho)

theorem labels_of_fitAll (hTable : ∀ name, table.lookup name = before name items)
    (hReplaced : Forall₂ (Replaced held) os replaced)
    (hFit : Slot.fitAll? slots (replaced.map (resolveOperand table)) = some fitted)
    (j : Nat) (name : String) (hLabel : os[j]? = some (.label name)) :
    ∃ n : Nat, before name items = some n ∧ fitted[j]? = some (.imm n) := by
  induction hReplaced generalizing slots fitted j with
  | nil => cases hLabel
  | @cons o o' os os' hFirst _ ih =>
    rcases fitAll_cons hFit with ⟨slot, slots, _, _, rfl, rfl, hFirstFit, hRestFit⟩
    cases j with
    | succ j => exact ih hRestFit j hLabel
    | zero =>
      cases hLabel
      cases hFirst with
      | held hConstant _ => rcases hConstant with hInt | ⟨_, hShown⟩ <;> contradiction
      | same _ =>
        simp only [resolveOperand, hTable name] at hFirstFit
        cases hPosition : before name items with
        | none =>
          rw [hPosition] at hFirstFit
          cases slot <;> cases hFirstFit
        | some n =>
          rw [hPosition] at hFirstFit
          refine ⟨n, rfl, ?_⟩
          cases slot <;> cases hFirstFit <;> rfl

---- Instructions

-- An instruction that sets a register to a constant.
def IsSetInstr (p : Reg × Int) (i : Instr) : Prop :=
  ∃ n line, i = .op .core .set [.reg p.1, n] line ∧ n.number? = some p.2

-- The instructions for a command of a draft: some set spare registers to its constants, the last
-- one has operands that match those of the command.
structure CodeBlock (items : List Item) (c : Command) (held : List (Reg × Int)) (sets : List Instr)
    (operands : List Operand) : Prop where
  loads : Forall₂ IsSetInstr held sets
  values : held.map Prod.snd = c.constants
  spare : Spare items held
  distinct : (held.map Prod.fst).Nodup
  fits : MatchFrom (assembled (view items held)) (target? c.op) 0 c.op.slots
      (c.inputs.map (valued items)) operands
  free : ∀ r ∈ outputs c.op (c.inputs.map (valued items)), ∀ p ∈ held, p.1 ≠ r

-- The instructions for a part of a draft, at any lines of the application.
inductive Coded (items : List Item) : List Item → List Instr → Prop
  | nil : Coded items [] []
  | label {name : String} {line : Option HostLine} {rest : List Item} {code : List Instr} :
      Coded items rest code → Coded items (.label name line :: rest) code
  | command {c : Command} {held : List (Reg × Int)} {sets : List Instr}
      {operands : List Operand} {family : Family} {line : Option HostLine} {rest : List Item}
      {code : List Instr} :
      CodeBlock items c held sets operands → Coded items rest code →
      Coded items (.command c :: rest) (sets ++ .op family c.op operands line :: code)

theorem buildItems_append (hBuild : buildItems f (first ++ second) = .ok instrs) :
    ∃ a b, buildItems f first = .ok a ∧ buildItems f second = .ok b ∧ instrs = a ++ b := by
  fun_induction buildItems f first generalizing instrs with
  | case1 => exact ⟨[], instrs, rfl, hBuild, rfl⟩
  | case2 => cases hBuild
  | case3 c rest ih =>
    rcases binds_ok hBuild with ⟨i, hInstr, is, hRest, ⟨⟩⟩
    rcases ih hRest with ⟨a, b, hFirst, hSecond, rfl⟩
    refine ⟨i :: a, b, ?_, hSecond, rfl⟩
    rw [hInstr, hFirst]
    rfl

-- The commands of a program with positions in place of labels.
def resolved (table : List (String × Nat)) (items : List Item) : List Item :=
  (items.filterMap Item.command?).map fun c =>
    .command { c with operands := c.operands.map (resolveOperand table) }

theorem resolved_sets (hSets : Forall₂ IsSet held sets) (table : List (String × Nat)) :
    resolved table sets = sets := by
  induction hSets with
  | nil => rfl
  | cons hSet _ ih => rcases hSet with ⟨_, _, rfl, rfl | ⟨_, rfl⟩⟩ <;> exact congrArg (_ :: ·) ih

theorem buildItems_sets (hSets : Forall₂ IsSet held sets)
    (hBuild : buildItems f sets = .ok instrs) : Forall₂ IsSetInstr held instrs := by
  have hSet : f.byOp? .set = some (.core, .set) := by cases f <;> decide
  induction hSets generalizing instrs with
  | nil =>
    cases hBuild
    exact .nil
  | cons hIsSet _ ih =>
    rcases hIsSet with ⟨value, line, rfl, hConstant⟩
    rcases binds_ok hBuild with ⟨i, hInstr, is, hRest, ⟨⟩⟩
    refine .cons ?_ (ih hRest)
    simp only [buildCommand, Command.plain, hSet] at hInstr
    rcases hConstant with rfl | ⟨words, rfl⟩ <;> cases hInstr <;> exact ⟨_, line, rfl, rfl⟩

theorem buildCommand_ok (hBuild : buildCommand f c = .ok i) :
    ∃ family fitted, i = .op family c.op fitted c.line ∧
      Slot.fitAll? c.op.slots c.operands = some fitted ∧ f.byOp? c.op = some (family, c.op) := by
  unfold buildCommand at hBuild
  split at hBuild
  · cases hBuild
  · rename_i family op hFound
    have hSame : op = c.op := by simpa using find?_some hFound
    subst hSame
    unfold Instr.ofOperands at hBuild
    split at hBuild
    · rename_i fitted hFit
      cases hBuild
      exact ⟨family, fitted, rfl, hFit, hFound⟩
    · cases hBuild

theorem named_of_mem_inputs (hCommand : Item.command c ∈ items) (hInput : Operand.reg r ∈ c.inputs) :
    Named items r := by
  intro _
  have hOperand : Operand.reg r ∈ c.operands := by
    rcases mem_append.mp hInput with hArg | hOperand
    · rcases mem_map.mp hArg with ⟨_, _, ⟨⟩⟩
    · exact hOperand
  exact mem_flatMap.mpr ⟨_, hCommand, mem_filterMap.mpr ⟨_, hOperand, rfl⟩⟩

-- The instructions of a command whose constants are in registers, and those behind it.
theorem build_block {op : Op} {os : List Operand} {line : Option HostLine} {rest : List Item}
    (hSets : Forall₂ IsSet held sets)
    (hBuild : buildItems f (resolved table (sets ++ .command ⟨op, [], os, line⟩ :: rest)) =
        .ok instrs) :
    ∃ loads family fitted code, instrs = loads ++ .op family op fitted line :: code ∧
      Forall₂ IsSetInstr held loads ∧
      Slot.fitAll? op.slots (os.map (resolveOperand table)) = some fitted ∧
      buildItems f (resolved table rest) = .ok code ∧ f.byOp? op = some (family, op) := by
  have hParts : resolved table (sets ++ .command ⟨op, [], os, line⟩ :: rest) =
      sets ++ .command ⟨op, [], os.map (resolveOperand table), line⟩ :: resolved table rest := by
    have hSame := resolved_sets hSets table
    simp only [resolved, filterMap_append, map_append] at hSame ⊢
    rw [hSame]
    rfl
  rw [hParts] at hBuild
  rcases buildItems_append hBuild with ⟨loads, code, hLoads, hTail, rfl⟩
  rcases binds_ok hTail with ⟨i, hInstr, is, hRest, ⟨⟩⟩
  rcases buildCommand_ok hInstr with ⟨family, fitted, rfl, hFit, hFound⟩
  exact ⟨loads, family, fitted, is, rfl, buildItems_sets hSets hLoads, hFit, hRest, hFound⟩

-- Each command of a draft has its instruction.
theorem instr_of_build (hExpanded : Expanded used part expanded)
    (hBuild : buildItems f (resolved table expanded) = .ok is) (hCommand : .command c ∈ part) :
    ∃ held sets os family fitted, Expands used c held sets os ∧
      Slot.fitAll? c.op.slots (os.map (resolveOperand table)) = some fitted ∧
      f.byOp? c.op = some (family, c.op) ∧ .op family c.op fitted c.line ∈ is := by
  induction hExpanded generalizing is with
  | nil => exact absurd hCommand not_mem_nil
  | label _ ih => exact ih hBuild ((mem_cons.mp hCommand).resolve_left (by rintro ⟨⟩))
  | command hExpands _ ih =>
    rcases build_block hExpands.sets hBuild with ⟨_, _, _, _, rfl, _, hFit, hRest, hFound⟩
    rcases mem_cons.mp hCommand with hSame | hLater
    · cases hSame
      exact ⟨_, _, _, _, _, hExpands, hFit, hFound, mem_append_right _ mem_cons_self⟩
    · rcases ih hRest hLater with ⟨_, _, _, _, _, hThere, hFits, hKnown, hMember⟩
      exact ⟨_, _, _, _, _, hThere, hFits, hKnown, mem_append_right _ (mem_cons_of_mem _ hMember)⟩

theorem coded_of_build (hExpanded : Expanded (registers items) part expanded) (hPart : part ⊆ items)
    (hPlain : AllPlain items) (hTable : ∀ name, table.lookup name = before name items)
    (hBuild : buildItems f (resolved table expanded) = .ok is) : Coded items part is := by
  induction hExpanded generalizing is with
  | nil =>
    cases hBuild
    exact .nil
  | label _ ih => exact .label (ih (fun _ h => hPart (mem_cons_of_mem _ h)) hBuild)
  | @command c held sets rest rest' os hExpands _ ih =>
    have hCommand := hPart mem_cons_self
    rcases build_block hExpands.sets hBuild with
      ⟨_, _, _, _, rfl, hLoads, hFit, hRest, _⟩
    have hSpare := spare_of_fresh hExpands.fresh
    refine .command ⟨hLoads, hExpands.values, hSpare, hExpands.distinct, ?_, ?_⟩
      (ih (fun _ h => hPart (mem_cons_of_mem _ h)) hRest)
    · refine matchFrom_of_fitAll hSpare hTable hExpands.operands hFit
        (fun r hr => named_of_mem_inputs hCommand hr) (hPlain.command hCommand).indices ?_
      intro j o hTarget ho
      exact (hPlain.command hCommand).writes j (by simpa using hTarget) o ho
    · rintro r hr p hp rfl
      rcases mem_map.mp (mem_of_mem_outputs hr) with ⟨o, ho, hValued⟩
      rw [eq_reg_of_valued hValued] at ho
      exact hSpare.unnamed p hp (named_of_mem_inputs hCommand ho)

theorem expanded_of_assemble (hAssemble : assemble .full f d = .ok s) :
    ∃ expanded table, Expanded (registers d.items) d.items expanded ∧
      positions expanded = .ok table ∧
      buildItems f (resolved table expanded) = .ok s.instrs ∧
      replaceItems (registers (d.items.map liftArgs)) (d.items.map liftArgs) = .ok expanded := by
  rcases binds_ok hAssemble with ⟨_, hPrepare, _, hBuild, ⟨⟩⟩
  rcases bind_ok hPrepare with ⟨_, ⟨⟩, hLater⟩
  rcases binds_ok hLater with ⟨expanded, hReplace, table, hTable, ⟨⟩⟩
  refine ⟨expanded, table, expanded_of_replaceItems ?_, hTable, hBuild, hReplace⟩
  rw [← registers_liftArgs]
  exact hReplace

theorem lookup_of_positions (hExpanded : Expanded used items expanded)
    (hTable : positions expanded = .ok table) (name : String) :
    table.lookup name = before name items := by
  rw [lookup_positionsFrom hExpanded hTable name]
  simp

theorem coded_of_assemble (hPlain : AllPlain d.items) (hAssemble : assemble .full f d = .ok s) :
    Coded d.items d.items s.instrs := by
  rcases expanded_of_assemble hAssemble with ⟨_, _, hExpanded, hTable, hBuild, _⟩
  exact coded_of_build hExpanded (Subset.refl _) hPlain (lookup_of_positions hExpanded hTable) hBuild

theorem before_of_positionsFrom (hExpanded : Expanded used items expanded)
    (hTable : positionsFrom found n expanded = .ok table)
    {name : String} {line : Option HostLine} (hLabel : items[place]? = some (.label name line)) :
    found.lookup name = none ∧ before name items = some (size (items.take place)) ∧
      behind name items = some (items.drop (place + 1)) := by
  induction hExpanded generalizing found n place with
  | nil => cases hLabel
  | @label other otherLine rest rest' _ ih =>
    simp only [positionsFrom] at hTable
    split at hTable
    · cases hTable
    · rename_i hNew
      cases place with
      | zero =>
        cases hLabel
        exact ⟨Option.not_isSome_iff_eq_none.mp hNew, by simp [before, size], by simp [behind]⟩
      | succ place =>
        rcases ih hTable hLabel with ⟨hFound, hBefore, hBehind⟩
        rw [lookup_append, Option.or_eq_none_iff] at hFound
        have hOther : other ≠ name := by
          rintro rfl
          simp at hFound
        exact ⟨hFound.1, by simp [before, hOther, size, hBefore], by simp [behind, hOther, hBehind]⟩
  | @command c held sets rest rest' os hExpands _ ih =>
    rw [positionsFrom_sets hExpands.sets] at hTable
    cases place with
    | zero => cases hLabel
    | succ place =>
      rcases ih hTable hLabel with ⟨hFound, hBefore, hBehind⟩
      exact ⟨hFound, by simp [before, size, hBefore], by simp [behind, hBehind]⟩

---- Places

open Draft
variable {family : Family} {sets : List Instr} {operands : List Operand}

theorem size_append (first second : List Item) :
    size (first ++ second) = size first + size second := by
  fun_induction size first with
  | case1 => simp
  | case2 _ _ _ ih => simpa [size] using ih
  | case3 =>
    simp only [cons_append, size]
    omega

theorem CodeBlock.length_sets (hBlock : CodeBlock items c held sets os) :
    sets.length + 1 = c.size := by
  rw [Command.size, ← hBlock.values, length_map, hBlock.loads.length_eq]

-- The line at which the instructions for the rest of a draft start.
structure At (items : List Item) (instrs : List Instr) (rest : List Item) (line : Nat) : Prop where
  split : ∃ done behind code, items = done ++ rest ∧ instrs = behind ++ code ∧
      behind.length = line ∧ size done = line ∧ Coded items rest code

variable {rest : List Item} {line : Nat}

theorem At.start (hCoded : Coded items items is) : At items is items 0 :=
  ⟨[], [], is, rfl, rfl, rfl, rfl, hCoded⟩

-- A command at a line of an assembled draft.
structure CommandAt (items : List Item) (instrs : List Instr) (c : Command) (rest : List Item)
    (line : Nat) (held : List (Reg × Int)) (sets : List Instr) (operands : List Operand)
    (family : Family) : Prop where
  block : CodeBlock items c held sets operands
  split : ∃ done behind code hostLine, items = done ++ .command c :: rest ∧
      instrs = behind ++ (sets ++ .op family c.op operands hostLine :: code) ∧
      behind.length = line ∧ size done = line ∧ Coded items rest code

protected theorem At.label {name : String} {l : Option HostLine}
    (hAt : At items is (.label name l :: rest) line) : At items is rest line := by
  rcases hAt.split with ⟨done, behind, code, hItems, hInstrs, hLine, hSize, hCoded⟩
  cases hCoded with
  | label hCoded =>
    refine ⟨done ++ [.label name l], behind, code, ?_, hInstrs, hLine, ?_, hCoded⟩
    · rw [hItems, append_assoc]
      rfl
    · rw [size_append, hSize]
      rfl

theorem At.next (hAt : At items is rest line) (hNext : Draft.next rest = some (c, later)) :
    ∃ held sets os family, CommandAt items is c later line held sets os family := by
  fun_induction Draft.next rest with
  | case1 => cases hNext
  | case2 _ _ _ ih => exact ih hAt.label hNext
  | case3 =>
    cases hNext
    rcases hAt.split with ⟨done, behind, code, hItems, hInstrs, hLine, hSize, hCoded⟩
    cases hCoded with
    | command hBlock hCoded =>
      exact ⟨_, _, _, _, hBlock, done, behind, _, _, hItems, hInstrs, hLine, hSize, hCoded⟩

-- Without a further command, the line is behind the last one.
theorem At.finish (hAt : At items is rest line) (hNext : Draft.next rest = none) :
    line = is.length := by
  fun_induction Draft.next rest with
  | case1 =>
    rcases hAt.split with ⟨_, _, _, _, hInstrs, hLine, _, ⟨⟩⟩
    rw [hInstrs, append_nil, hLine]
  | case2 name l rest ih => exact ih hAt.label hNext
  | case3 c rest => cases hNext

theorem CommandAt.later (hAt : CommandAt items is c rest line held sets os family) :
    Assembly.At items is rest (line + c.size) := by
  rcases hAt.split with ⟨done, behind, code, hostLine, hItems, hInstrs, hLine, hSize, hCoded⟩
  refine ⟨done ++ [.command c],
    behind ++ (sets ++ [.op family c.op os hostLine]), code, ?_, ?_, ?_, ?_, hCoded⟩
  · rw [hItems, append_assoc]
    rfl
  · rw [hInstrs, append_assoc, append_assoc]
    rfl
  · simp [hLine, ← hAt.block.length_sets]
  · rw [size_append, hSize]
    simp [size]

protected theorem At.command (hAt : At items is (.command c :: rest) line) :
    At items is rest (line + c.size) := by
  rcases hAt.next rfl with ⟨_, _, _, _, hCommand⟩
  exact hCommand.later

-- The place of a label, so many lines further on.
theorem At.jump {name : String} {n : Nat} (hAt : At items is rest line)
    (hBefore : before name rest = some n) :
    ∃ place, behind name rest = some place ∧ At items is place (line + n) := by
  fun_induction before name rest generalizing line n with
  | case1 => cases hBefore
  | case2 _ rest =>
    cases hBefore
    exact ⟨rest, by simp [behind], hAt.label⟩
  | case3 _ _ _ hOther ih =>
    simp only [behind, hOther]
    exact ih hAt.label hBefore
  | case4 c _ ih =>
    rcases Option.map_eq_some_iff.mp hBefore with ⟨m, hLater, rfl⟩
    rw [← Nat.add_assoc]
    exact ih hAt.command hLater

theorem commandAt_append (done rest : List Item) (n : Nat) :
    commandAt (done ++ rest) (size done + n) = commandAt rest n := by
  fun_induction size done with
  | case1 => simp
  | case2 _ _ _ ih => exact ih
  | case3 c done ih =>
    have hPositive : 0 < c.size := Nat.succ_pos _
    rw [cons_append, commandAt, if_neg (by omega), if_neg (by omega)]
    have hSkip : c.size + size done + n - c.size = size done + n := by omega
    rw [hSkip]
    exact ih

theorem commandAt_inside (hAt : CommandAt items is c rest line held sets os family)
    (hAfter : line < n) (hBefore : n < line + c.size) : commandAt items n = none := by
  rcases hAt.split with ⟨done, _, _, _, hItems, _, _, hSize, _⟩
  have hInside := commandAt_append done (.command c :: rest) (n - line)
  rw [← hItems, hSize] at hInside
  have hPlace : line + (n - line) = n := by omega
  rw [hPlace] at hInside
  rw [hInside, commandAt, if_neg (by omega), if_pos (by omega)]

end QuantumNode.Assembly
