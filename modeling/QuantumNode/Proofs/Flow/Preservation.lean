import Mathlib.Data.List.Perm.Subperm
import QuantumNode.Proofs.Flow.Scope

/-
  Programs with loops and conditions do what they read: the subroutine that a session makes of a
  flow carries out the commands of the flow in the order of its reading, in states in which the
  registers that the program holds are the same, and ends like the reading. Loops, and conditions on
  two values, give back the registers that they take. A condition on one entry of an array does not.
-/

open List

namespace QuantumNode.Flow
variable {steps : List (List Item × Node)} {lines : List Nat} {s : Node} {p : Subroutine}
open Draft Node Machine Session Assembly
variable {c : Command} {rest : List Item} {t : Node}
variable {whole items : List Item} {sub : Nat} {app : Int} {f : Flow}

---- Lines of the application

theorem before_bare (name : String) (items : List Item) :
    before name (items.map Item.bare) = before name items := by
  induction items with
  | nil => rfl
  | cons item rest ih =>
    cases item with
    | label other line => simp only [map_cons, Item.bare, before, ih]
    | command c => exact congrArg (Option.map (c.size + ·)) ih

theorem behind_bare (name : String) (items : List Item) :
    behind name (items.map Item.bare) = (behind name items).map (·.map Item.bare) := by
  induction items with
  | nil => rfl
  | cons item rest ih =>
    cases item with
    | label other line =>
      simp only [map_cons, Item.bare, behind, ih]
      split <;> rfl
    | command c => exact ih

theorem bareAt_bare (items : List Item) (n : Nat) :
    bareAt (items.map Item.bare) n = bareAt items n := by
  induction items generalizing n with
  | nil => rfl
  | cons item rest ih =>
    cases item with
    | label name line => exact ih n
    | command c =>
      have hSize : Command.size { c with line := none } = c.size := rfl
      have hLater := ih (n - c.size)
      simp only [bareAt, map_cons, Item.bare, commandAt, hSize] at hLater ⊢
      repeat' split
      · rfl
      · rfl
      · exact hLater

theorem named_bare (items : List Item) : Named (items.map Item.bare) = Named items := by
  have hRegisters : Draft.registers (items.map Item.bare) = Draft.registers items := by
    rw [Draft.registers, Draft.registers, flatMap_map]
    congr
    funext item
    cases item <;> rfl
  unfold Named
  rw [hRegisters]

theorem valued_bare (items : List Item) : valued (items.map Item.bare) = valued items := by
  funext o
  cases o <;> simp only [valued, before_bare]

theorem allPlain_bare : AllPlain (items.map Item.bare) ↔ AllPlain items := by
  simp only [AllPlain, forall_mem_map]
  refine forall₂_congr fun item _ => ?_
  cases item with
  | label name line => simp [Item.bare, Item.command?]
  | command c =>
    simp only [Item.bare, Item.command?, Option.mem_def, Option.some.injEq, forall_eq', plain_iff,
      named_bare]
    rfl

-- Instructions for a draft are instructions for it without lines of the application.
theorem coded_bare (hCoded : Coded items part is) :
    Coded (items.map Item.bare) (part.map Item.bare) is := by
  induction hCoded with
  | nil => exact .nil
  | label _ ih => exact .label ih
  | command hBlock _ ih =>
    refine .command ⟨hBlock.loads, hBlock.values, ⟨hBlock.spare.place, ?_⟩, hBlock.distinct,
      ?_, ?_⟩ ih
    · rw [named_bare]
      exact hBlock.spare.unnamed
    · rw [valued_bare, Assembly.view, named_bare]
      exact hBlock.fits
    · rw [valued_bare]
      exact hBlock.free

theorem fits_of_coded (hCoded : Coded items items is) : Fits items := by
  have hPart : ∀ part code, Coded items part code → ∀ c, Item.command c ∈ part →
      ∃ P os', MatchFrom P (target? c.op) 0 c.op.slots (c.inputs.map (valued items)) os' := by
    intro part code hCoded
    induction hCoded with
    | nil => rintro c ⟨⟩
    | label _ ih =>
      rintro c (_ | ⟨_, hLater⟩)
      exact ih c hLater
    | command hBlock _ ih =>
      rintro c (_ | ⟨_, hLater⟩)
      · exact ⟨_, _, hBlock.fits⟩
      · exact ih c hLater
  exact hPart items is hCoded

theorem resolves_bare {flavour : Flavour} {d : Draft}
    (hAssemble : assemble .full flavour d = .ok p) : Resolves (d.items.map Item.bare) := by
  intro name line front rest hWhole
  rcases expanded_of_assemble hAssemble with ⟨_, _, hExpanded, hTable, _⟩
  have hBare : (d.items.map Item.bare)[front.length]? = some (.label name line) := by
    rw [hWhole]
    simp
  rw [getElem?_map] at hBare
  rcases Option.map_eq_some_iff.mp hBare with ⟨item, hItem, hSame⟩
  cases item with
  | command c => cases hSame
  | label name' line' =>
    cases hSame
    rw [behind_bare, (before_of_positionsFrom hExpanded hTable hItem).2.2, Option.map_some,
      map_drop, hWhole]
    simp

theorem Goes.run (hGoes : Goes whole sub app lines E V start [] reading t) :
    ∃ steps r t', Run (Draft.program whole sub) start t steps r t' ∧
      SameEnd reading.result r ∧ Seen whole sub app lines reading.visits steps ∧
      Linked sub app (if reading.result.isOk then V else E) reading.state t' := by
  rcases hGoes start rfl with ⟨steps, hSeen, hEnds⟩
  cases hResult : reading.result with
  | ok _ =>
    rw [hResult] at hEnds
    rcases hEnds with ⟨stop, t', hPath, hStop, hLinked⟩
    have hEnd : Draft.program whole sub stop = none := by
      rw [Draft.program, hStop.next_eq]
      rfl
    have hRun := hPath.run (.done hEnd)
    rw [append_nil] at hRun
    exact ⟨steps, _, t', hRun, rfl, hSeen, hLinked⟩
  | error e =>
    rw [hResult] at hEnds
    rcases hEnds with ⟨_, t', hRun, hCategory, hLinked⟩
    exact ⟨steps, _, t', hRun, .error hCategory, hSeen, hLinked⟩

-- What a program and its subroutine share: registers in scope; the host sees those named.
def shared (items : List Item) (scope : List Reg) : View := ⟨Live scope, Named items, []⟩

-- A command of a reading and an instruction that a subroutine came to: the instruction is the first
-- one for the command, and the states agree on the registers in scope.
structure Performed (sub : Nat) (app : Int) (items : List Item) (v : Visit)
    (w : Int × Node) : Prop where
  command : bareAt items w.1.toNat = some (Item.command v.command).bare
  linked : Linked sub app ⟨fun r => Live v.scope r ∧ Named items r, Named items, []⟩ v.state w.2

-- A command that is carried out in a reading, in its draft and by its instructions.
theorem Performed.of_alike (hAlike : VisitAlike items sub app v w)
    (hMatch : VisitMatch sub app items w x) : Performed sub app items v x := by
  refine ⟨?_, (hAlike.linked.trans hMatch.2).mono ⟨fun _ hr => hr, ?_, fun _ hp => hp⟩⟩
  · rw [hMatch.1, Int.toNat_natCast, bareAt, hAlike.command]
    rfl
  · exact fun r hr => ⟨trivial, hr⟩

theorem Performed.of_bare (hPerformed : Performed sub app (items.map Item.bare) v w) :
    Performed sub app items v w := by
  rcases hPerformed with ⟨hCommand, hLinked⟩
  rw [bareAt_bare] at hCommand
  rw [named_bare] at hLinked
  exact ⟨hCommand, hLinked⟩

theorem forall₂_comp {α β γ : Type} {R : α → β → Prop} {S : β → γ → Prop} {T : α → γ → Prop}
    (hComp : ∀ {a b c}, R a b → S b c → T a c) {as : List α} {bs : List β} {cs : List γ}
    (hFirst : Forall₂ R as bs) (hThen : Forall₂ S bs cs) : Forall₂ T as cs := by
  induction hFirst generalizing cs with
  | nil =>
    cases hThen
    exact .nil
  | cons hHere _ ih =>
    cases hThen with
    | cons hHere' hLater => exact .cons (hComp hHere hHere') (ih hLater)

theorem performed_of_seen (hStarts : ∀ line ∈ lines, (commandAt items line).isSome)
    {visits : List Visit} {trace : List (Int × Node)}
    (hSeen : Seen items sub app lines visits steps)
    (hMatch : Forall₂ (VisitMatch sub app items) steps (starts items trace)) :
    Forall₂ (Performed sub app items) visits
      (trace.filter fun w => ∃ line ∈ lines, w.1 = (line : Int)) := by
  have hLines : (trace.filter fun w => ∃ line ∈ lines, w.1 = (line : Int)) =
      (starts items trace).filter fun w => ∃ line ∈ lines, w.1 = (line : Int) := by
    rw [starts, filter_filter]
    refine filter_congr fun w _ => ?_
    rw [Bool.eq_iff_iff, Bool.and_eq_true, decide_eq_true_eq]
    refine ⟨fun hLine => ⟨hLine, ?_⟩, And.left⟩
    rcases hLine with ⟨line, hMember, hSame⟩
    rw [hSame]
    exact hStarts line hMember
  have hSame : Forall₂ (VisitMatch sub app items)
      (steps.filter fun w => lineOf items w.1 ∈ lines)
      (trace.filter fun w => ∃ line ∈ lines, w.1 = (line : Int)) := by
    rw [hLines]
    refine rel_filter ?_ hMatch
    intro w x hAlike
    simp [hAlike.1, Int.natCast_inj]
  exact forall₂_comp .of_alike hSeen hSame

theorem taken_complete {s : Session}
    (hNumbers : ∀ a ∈ s.allocation.returnedArrays, a.StartsWithNumbers) :
    (complete s f).taken = f.taken := by
  have hMaking := (scoped_makingAll [] hNumbers).2
  simp [complete, taken_append, hMaking, adding, taken]

/-
  A session makes a subroutine of a flow that does what the flow reads. It comes to the commands of
  the flow in the order of the reading, in states that agree on the registers in scope, among them
  those of the loops around, and ends like the reading with the same arrays and registers; so it
  does on the node, if the node may run that many instructions.
-/
theorem runs_as_read
    {s u t : Session}
    {a : Unit}
    {d : Draft}
    {p : Subroutine}
    {flavour : Flavour}
    (hNothing : s.pending = [])
    (hProper : f.AllProper)
    (hBuild : effect f.build s = (.ok a, u))
    (hDraft : effect popDraft u = (.ok (some d), t))
    (hAssemble : assemble .full flavour d = .ok p)
    (hScoped : Scoped [] [] f)
    (hNumbers : ∀ a ∈ u.allocation.returnedArrays, a.StartsWithNumbers)
    (hReturned : ∀ r ∈ u.allocation.returnedRegisters, Live f.taken r)
    {n : Node}
    (hHosts : n.Hosts sub app) :
    let reading := (complete u f).read sub [] n
    ∃ (lines : List Nat) (visits : List (Int × Node)) (r : Except Fault Unit) (t' : Node),
      lines.Pairwise (· < ·) ∧
      lines.map (bareAt d.items) =
        (complete u f).commands.map (fun c => some (Item.command c).bare) ∧
      Run (Node.program sub p.instrs.toArray) 0 n visits r t' ∧
      List.Forall₂ (Performed sub app d.items) reading.visits
        (visits.filter fun w => ∃ line ∈ lines, w.1 = (line : Int)) ∧
      SameEnd reading.result r ∧
      Linked sub app (shared d.items (if reading.result.isOk then f.taken else []))
        reading.state t' ∧
      ∀ limit, visits.length ≤ limit →
        ∃ q left, effect (runFrom sub p.instrs.toArray limit 0) n = (q, withBudget left t') ∧
          SameEnd reading.result q := by
  intro reading
  rcases (build_ok hProper (nil_subset _) hBuild).code with ⟨_, hAdds, hLays⟩
  have hPending := hAdds.pending
  rw [hNothing, map_nil, nil_append] at hPending
  rcases popDraft_ok (nil_subset _) (hPending ▸ hLays) hDraft with ⟨m, hLaid, hItems⟩
  have hWhole := scoped_complete hScoped hNumbers hReturned
  have hPlain := hItems ▸ hLaid.allPlain hWhole
  have hCoded := coded_bare (coded_of_assemble (allPlain_bare.mp hPlain) hAssemble)
  have hCommands := hLaid.commands_eq
  have hSplit : m = [] ++ (m ++ []) := by simp
  have hGoes := hLaid.goes (hItems ▸ fits_of_coded hCoded) (hItems ▸ resolves_bare hAssemble)
    hWhole (map_nil (f := Prod.fst (β := Int))) (by rintro p ⟨⟩) hSplit (hHosts.linked _ rfl)
  simp only [append_nil, taken_complete hNumbers] at hGoes
  rw [hItems] at hCommands hGoes
  rcases hGoes.run with ⟨steps, r₀, t₀, hRun, hEnd, hSeen, hLinked⟩
  rcases run_of_draft hCoded hPlain hRun (At.start hCoded) (hHosts.linked (Assembly.view _ []) rfl)
    with ⟨visits, r, t', hRun', hEnd', hLinked', hVisits⟩
  have hSame : SameEnd reading.result r := Eq.trans hEnd' hEnd
  have hBare := funext (bareAt_bare d.items)
  refine ⟨_, visits, r, t', linesFrom_increasing 0 m, hBare ▸ hCommands, hRun', ?_, hSame, ?_, ?_⟩
  · refine (performed_of_seen (fun line hLine => ?_) hSeen hVisits).imp fun _ _ => .of_bare
    have hMember := mem_map_of_mem (f := bareAt (d.items.map Item.bare)) hLine
    rw [hCommands] at hMember
    rcases mem_map.mp hMember with ⟨c, _, hFound⟩
    rcases Option.map_eq_some_iff.mp hFound.symm with ⟨c', hAt, _⟩
    rw [hAt]
    rfl
  · have hView : (if reading.result.isOk then Flow.view f.taken [] else Flow.view [] []) =
        Flow.view (if reading.result.isOk then f.taken else []) [] := by
      split <;> rfl
    rw [hView] at hLinked
    rw [shared, ← named_bare]
    refine (hLinked.trans hLinked').mono ⟨fun q hLive => ⟨hLive, fun hBank => ?_⟩,
      fun q hNamed => ⟨trivial, hNamed⟩, by rintro p ⟨⟩⟩
    have hTaken : q ∈ (complete u f).taken := by
      have hMember := hLive hBank
      rw [taken_complete hNumbers]
      split at hMember
      · exact hMember
      · cases hMember
    exact hItems ▸ hLaid.taken_named hWhole (List.Subset.refl _) hTaken hBank
  · intro limit hLimit
    rcases runFrom_of_run hRun' hLimit with ⟨q, left, hNode, hLast⟩
    exact ⟨q, left, hNode, Eq.trans hLast hSame⟩

---- Programs of a session

-- A session with an array and the future of its first entry.
def startingSession (init : Option (List (Option Operand))) : Session where
  app := "alice"
  node := "alice"
  appId := 0
  hardware := ⟨false, 5, 0⟩
  mapped := false
  returnsArrays := true
  nodeIds := []
  pending := []
  allocation := { (Allocation.empty : Allocation HostArray) with
      addresses := [0]
      returnedArrays := [⟨0, 3, init, none⟩] }
  labels := .empty
  nextContext := 0
  contexts := []
  futures := #[⟨.entry 0 (.int 0), none⟩]
  qubits := #[]
  programs := #[]
  committed := []
  sockets := #[]
  tracker := none
  frames := []
  registry := ⟨[], []⟩
  backend := none
  memory := none
  sent := []

-- A node with an application that shares a memory with its host, and a subroutine of it.
def openNode : Node :=
  { (effect (initApp 0 5) (Node.fresh "node" 0 .vanilla false false)).2 with
    subroutines := [(0, some 0)] }

def compiled (f : Flow) : SessionM Subroutine := do
  f.build
  match ← popDraft with
  | some d => assemble .full .vanilla d
  | none => throw .unmet

-- Store the index of each round; in the round of index one, load what the first one stored.
def tally : Flow :=
  .loop (.called 0 3 1) ⟨.r, 0⟩ (.act (Session.emit .store [.reg ⟨.r, 0⟩, .entry 0 (.reg ⟨.r, 0⟩)])
      [.plain .store [.reg ⟨.r, 0⟩, .entry 0 (.reg ⟨.r, 0⟩)] none] []
      (.when true ⟨.beq, .future 1, .int 1, .register ⟨.r, 0⟩, some (.number 1)⟩
        (.act (Session.emit .load [.reg ⟨.c, 0⟩, .entry 0 (.int 0)])
          [.plain .load [.reg ⟨.c, 0⟩, .entry 0 (.int 0)] none] [] .done)
        .done))
    .done

-- The program that stores its indices runs to its end, like its reading.
theorem runs_as_read_tally :
    ∃ u t d p visits r t', effect tally.build (startingSession none) = (.ok (), u) ∧
      effect popDraft u = (.ok (some d), t) ∧ assemble .full .vanilla d = .ok p ∧
      Run (Node.program 0 p.instrs.toArray) 0 openNode visits r t' ∧
      ((complete u tally).read 0 [] openNode).result.isOk ∧
      SameEnd ((complete u tally).read 0 [] openNode).result r := by
  have hCompiled : (effect tally.compiled (startingSession none)).1.isOk := by
    decide +kernel
  rcases hEffect : effect tally.compiled (startingSession none) with ⟨e | p, v⟩
  · rw [hEffect] at hCompiled
    cases hCompiled
  · rcases of_binds_ok hEffect with ⟨_, u, hBuild, _ | d, t, hDraft, hLater⟩
    · cases hLater
    have hAssemble := (effect_lift_ok hLater).1
    have hArrays : (effect tally.build (startingSession none)).2.allocation.returnedArrays.all
        fun a => a.init.isNone := by
      decide +kernel
    have hRegisters :
        (effect tally.build (startingSession none)).2.allocation.returnedRegisters = [] := by
      decide +kernel
    have hReads : ((complete (effect tally.build (startingSession none)).2 tally).read 0 []
        openNode).result.isOk := by
      decide +kernel
    rw [hBuild] at hArrays hRegisters hReads
    have hProper : tally.AllProper := ⟨⟨proper_addOne _, ⟨proper_addOne _, trivial⟩, trivial⟩, trivial⟩
    have hScoped : Scoped [] [] tally := by decide
    have hHosts : openNode.Hosts 0 0 := ⟨rfl, rfl, rfl⟩
    have hNumbers : ∀ a ∈ u.allocation.returnedArrays, a.StartsWithNumbers := by
      intro a ha _ hValues
      have hNone := all_eq_true.mp hArrays a ha
      rw [Option.isNone_iff_eq_none] at hNone
      rw [hNone] at hValues
      cases hValues
    rcases runs_as_read rfl hProper hBuild hDraft hAssemble hScoped hNumbers
      (by rw [hRegisters]; rintro q ⟨⟩) hHosts
      with ⟨_, visits, r, t', _, _, hRun, _, hEnd, _⟩
    exact ⟨u, t, d, p, visits, r, t', hBuild, hDraft, hAssemble, hRun, hReads, hEnd⟩

def sevens : Session := startingSession (some [some (.int 7), some (.int 7), some (.int 7)])

-- Take a register and set it to five, in the first round only. A condition in front of it compares
-- an entry of the array.
def setOnce : Flow :=
  .loop (.called 0 2 1) ⟨.r, 0⟩
    (.when true ⟨.beq, .future 0, .int 1, .entry 0 (.number 0), some (.number 1)⟩
      (.act (Session.emit .set [.reg ⟨.c, 0⟩, .int 3])
        [.plain .set [.reg ⟨.c, 0⟩, .int 3] none] [] .done)
      (.when false ⟨.bez, .future 1, .none, .register ⟨.r, 0⟩, none⟩
        (.act (do let _ ← newRegister (.int 5))
          [.plain .set [.reg ⟨.r, 1⟩, .int 5] none] [⟨.r, 1⟩] .done)
        .done))
    .done

/-
  The register is taken behind the condition, so the condition loads the entry into the same
  register. In the second round that overwrites what the first round has set: the reading leaves
  five, the subroutine seven.
-/
theorem setOnce_overwritten :
    let reading := (complete (effect setOnce.build sevens).2 setOnce).read 0 [] openNode
    reading.result.isOk ∧ (Table.get? 0 reading.state.registers).bind (·.value ⟨.r, 1⟩) = some 5 ∧
      ∃ p t, effect setOnce.compiled sevens = (.ok p, t) ∧
        (effect (runFrom 0 p.instrs.toArray 100 0) openNode).1.isOk ∧
        (Table.get? 0 (effect (runFrom 0 p.instrs.toArray 100 0) openNode).2.registers).bind
          (·.value ⟨.r, 1⟩) = some 7 := by
  have hRuns : ∃ p ∈ (effect setOnce.compiled sevens).1.toOption,
      (effect (runFrom 0 p.instrs.toArray 100 0) openNode).1.isOk ∧
      (Table.get? 0 (effect (runFrom 0 p.instrs.toArray 100 0) openNode).2.registers).bind
        (·.value ⟨.r, 1⟩) = some 7 := by
    decide +kernel
  refine ⟨by decide +kernel, by decide +kernel, ?_⟩
  rcases hRuns with ⟨p, hCompiled, hEnds, hValue⟩
  rcases hEffect : effect setOnce.compiled sevens with ⟨e | q, t⟩ <;> rw [hEffect] at hCompiled <;>
    cases hCompiled
  exact ⟨p, t, rfl, hEnds, hValue⟩

---- Registers in use

-- Registers stay in use, and the only ones that come to them are those that the program holds and
-- one for each condition on a single entry. Without these the same ones are in use.
theorem registers_given_back
    {f : Flow}
    {s t : Session}
    {a : Unit}
    (hProper : f.AllProper)
    (hCounted : f.AllCounted)
    (hBuild : effect f.build s = (.ok a, t)) :
    s.allocation.registers ⊆ t.allocation.registers ∧ Grows f.growth s t ∧
      (f.growth = 0 → s.allocation.registers.Nodup →
        s.allocation.registers.Perm t.allocation.registers) := by
  have hBuilt := build_ok hProper (nil_subset _) hBuild
  refine ⟨hBuilt.frame.registers, hBuilt.grows hCounted, fun hNone hNodup => ?_⟩
  have hGrows := hBuilt.grows hCounted
  rw [hNone] at hGrows
  exact (subperm_of_subset hNodup hBuilt.frame.registers).perm_of_length_le hGrows

theorem registers_given_back_tally :
    ∃ t, effect tally.build (startingSession none) = (.ok (), t) ∧ t.pending ≠ [] ∧
      [].Perm t.allocation.registers := by
  have hBuild : effect tally.build (startingSession none) = (.ok (), _) :=
    effect_of_toOption (by decide +kernel)
  have hEmit : ∀ op operands s a t, effect (Session.emit op operands) s = (.ok a, t) → Grows 0 s t := by
    intro op operands s a t hEffect
    rcases addOne_ok hEffect with ⟨_, rfl⟩
    exact Nat.le_refl _
  refine ⟨_, hBuild, by decide +kernel, (registers_given_back ?_ ?_ hBuild).2.2 rfl nodup_nil⟩
  · exact ⟨⟨proper_addOne _, ⟨proper_addOne _, trivial⟩, trivial⟩, trivial⟩
  · exact ⟨⟨hEmit _ _, ⟨hEmit _ _, trivial⟩, trivial⟩, trivial⟩

-- A condition on an entry leaves a register in use, and a loop until an entry is small leaves two.
theorem registers_left :
    let single := effect (ifBody (m := SessionM) .bez (.future 0) .none
      (Session.emit .set [.reg ⟨.c, 0⟩, .int 3])) (startingSession none)
    let early := effect (untilBlock (m := SessionM) (.int 3) fun _ => do
      Session.emit .set [.reg ⟨.c, 0⟩, .int 3]
      return ((), some (.atMost (.future 0) (.int 1)), pure ())) (startingSession none)
    single.1.isOk ∧ single.2.allocation.registers = [⟨.r, 0⟩] ∧
      early.1.isOk ∧ early.2.allocation.registers = [⟨.r, 0⟩, ⟨.r, 1⟩] := by
  decide +kernel

end QuantumNode.Flow
