import QuantumNode.Proofs.Assembly.Layout

/-
  Values for templates, given to a draft before it is assembled. The draft loses its labels, and so
  it cannot be assembled any more if a command refers to one.
-/

open List

namespace QuantumNode.Assembly
open Draft
variable {c : Command} {f : Flavour} {items items' : List Item} {name : String}
  {os os' : List Operand} {values : List (String × Int)}

-- A label stays an operand when templates get values.
theorem label_mem_fill (hFill : Subroutine.fill (some values) os = .ok os')
    (hLabel : .label name ∈ os) : .label name ∈ os' := by
  induction os generalizing os' with
  | nil => exact absurd hLabel not_mem_nil
  | cons o rest ih =>
    rcases mem_cons.mp hLabel with rfl | hLater
    · rcases Checked.answer_ok hFill with ⟨_, _, rfl⟩
      exact mem_cons_self
    · cases o with
      | template other =>
        simp only [Subroutine.fill] at hFill
        split at hFill
        · cases hFill
        · rcases Checked.answer_ok hFill with ⟨_, hRest, rfl⟩
          exact mem_cons_of_mem _ (ih hRest hLater)
      | _ =>
        rcases Checked.answer_ok hFill with ⟨_, hRest, rfl⟩
        exact mem_cons_of_mem _ (ih hRest hLater)

-- A draft with values has no labels, but its commands still refer to them.
theorem fillItems_ok (hFill : fillItems values items = .ok items') :
    before name items' = none ∧ ∀ c, .command c ∈ items → .label name ∈ c.operands →
        ∃ c', .command c' ∈ items' ∧ .label name ∈ c'.operands := by
  fun_induction fillItems values items generalizing items' with
  | case1 =>
    cases hFill
    exact ⟨rfl, fun c hCommand => absurd hCommand not_mem_nil⟩
  | case2 _ _ rest ih =>
    refine ⟨(ih hFill).1, fun c hCommand => ?_⟩
    exact (ih hFill).2 c ((mem_cons.mp hCommand).resolve_left (by rintro ⟨⟩))
  | case3 c rest ih =>
    rcases Checked.binds_ok hFill with ⟨os, hOperands, rest', hRest, ⟨⟩⟩
    rcases ih hRest with ⟨hNone, hRefers⟩
    refine ⟨by rw [before, hNone]; rfl, fun c' hCommand hLabel => ?_⟩
    rcases mem_cons.mp hCommand with hSame | hLater
    · cases hSame
      exact ⟨_, mem_cons_self, label_mem_fill hOperands hLabel⟩
    · rcases hRefers c' hLater hLabel with ⟨c'', hFound, hThere⟩
      exact ⟨c'', mem_cons_of_mem _ hFound, hThere⟩

-- A draft with a command that refers to a label cannot be assembled after its templates got values,
-- whatever they are.
theorem branches_refused
    {d : Draft}
    {c : Command}
    {name : String}
    (f : Flavour)
    (app : Int)
    (values : List (String × Int))
    (hCommand : .command c ∈ d.items)
    (hLabel : .label name ∈ c.operands) :
    (d.instantiate app values >>= assemble .full f).toOption = none := by
  cases hFilled : fillItems values d.items with
  | error e => simp [Draft.instantiate, hFilled, bind, Except.bind, Except.toOption]
  | ok items =>
    rcases fillItems_ok hFilled with ⟨hNone, hRefers⟩
    rcases hRefers c hCommand hLabel with ⟨_, hThere, hLabel'⟩
    simp only [Draft.instantiate, hFilled, bind, Except.bind, pure, Except.pure]
    cases hAssemble : assemble .full f { d with items := items, appId := some app } with
    | error e => rfl
    | ok p =>
      rcases expanded_of_assemble hAssemble with ⟨_, _, hExpanded, hTable, hBuild, _⟩
      rcases instr_of_build hExpanded hBuild hThere with ⟨_, _, _, _, _, hExpands, hFit, _⟩
      rcases mem_iff_getElem?.mp (mem_append_right (_ : List Operand) hLabel') with ⟨j, hPlace⟩
      rcases labels_of_fitAll (lookup_of_positions hExpanded hTable) hExpands.operands hFit j name
        hPlace with ⟨_, hFound, _⟩
      cases hNone.symm.trans hFound

-- A turn by an angle that is not known yet, and a jump back to it.
def turning : Draft :=
  .ofItems none none [.label "TOP" none,
    command .rotX [.reg ⟨.r, 0⟩, .template "a", .int 4],
    command .jmp [.label "TOP"]]

theorem branches_refused_turning :
    (turning.instantiate 0 [("a", 3)] >>= assemble .full .vanilla).toOption = none :=
  branches_refused .vanilla 0 [("a", 3)] (mem_cons_of_mem _ (mem_cons_of_mem _ mem_cons_self))
    mem_cons_self

-- Given to the subroutine, the same value comes to an instruction.
theorem label_lost :
    (assemble .full .vanilla turning >>= fun p => p.instantiate 0 (some [("a", 3)])).toOption.isSome ∧
      (turning.instantiate 0 [("a", 3)] >>= assemble .full .vanilla).toOption = none := by
  decide +kernel

end QuantumNode.Assembly
