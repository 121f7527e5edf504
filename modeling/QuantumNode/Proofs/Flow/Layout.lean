import QuantumNode.Proofs.Assembly.Simulation
import QuantumNode.Proofs.Flow.Basic

/-
  The items that a flow is laid out in: its commands in the
  order in which they are written, with branches and labels
  around the bodies of conditions and loops; and how a session
  compares values: entries of arrays are loaded into registers
  that are not in use.  A layout has no lines of the application,
  which do not matter to what a draft does.
-/

open List

namespace QuantumNode.Flow
open Item Term

variable {operands : List Operand} {flipped : Op} {r : Reg} {rounds : Rounds} {exit : String}

open Draft
variable {c : Command} {f : Flow} {items : List Item} {m : List (Bool × Item)}
  {loops scope : List Reg} {n : Nat} {op : Op} {terms : List Term}

-- Items that load the entries among compared terms, with the operands to compare and the registers
-- that are loaded.
inductive Fetched (scope : List Reg) : List Term → List Item → List Operand → List Reg → Prop
  | nil : Fetched scope [] [] [] []
  | number {v : Int} {terms : List Term} {loads : List Item} {operands : List Operand}
      {loaded : List Reg} :
      Fetched scope terms loads operands loaded →
      Fetched scope (.number v :: terms) loads (.int v :: operands) loaded
  | register {r : Reg} {terms : List Term} {loads : List Item} {operands : List Operand}
      {loaded : List Reg} :
      Fetched scope terms loads operands loaded →
      Fetched scope (.register r :: terms) loads (.reg r :: operands) loaded
  | entry {address : Int} {spot : Spot} {r : Reg} {terms : List Term} {loads : List Item}
      {operands : List Operand} {loaded : List Reg} :
      r ∈ Reg.ofBank .r → r ∉ scope → r ∉ loaded →
      Fetched scope terms loads operands loaded →
      Fetched scope (.entry address spot :: terms)
        (command .load [.reg r, .entry address spot.index] :: loads)
        (.reg r :: operands) (r :: loaded)

---- Items of a flow

-- The branch that skips the body of a condition.
def branch (op : Op) (operands : List Operand) (exit : String) : Item :=
  command op (operands ++ [.label exit])

def barely (commands : List Command) : List Item :=
  commands.map fun c => (Item.command c).bare

-- Items of a flow are told apart from those around them by a mark.
def marked (own : Bool) (items : List Item) : List (Bool × Item) := items.map (own, ·)

def unmarked (m : List (Bool × Item)) : List Item := m.map Prod.snd

@[simp] theorem unmarked_marked (own : Bool) (items : List Item) :
    unmarked (marked own items) = items := by
  simp [unmarked, marked, Function.comp_def]

@[simp] theorem unmarked_append (m m' : List (Bool × Item)) :
    unmarked (m ++ m') = unmarked m ++ unmarked m' :=
  map_append

-- Items for a flow. Registers that the layout adds are not in scope.
inductive Laid : List Reg → Flow → List (Bool × Item) → Prop
  | done {scope : List Reg} : Laid scope .done []
  | act {scope kept : List Reg} {x : SessionM Unit} {commands : List Command} {rest : Flow}
      {m : List (Bool × Item)} :
      Laid (kept ++ scope) rest m →
      Laid scope (.act x commands kept rest) (marked true (barely commands) ++ m)
  | skipWhen {scope : List Reg} {asBlock : Bool} {test : Test} {body rest : Flow}
      {m : List (Bool × Item)} :
      body.isSilent → Laid scope rest m → Laid scope (.when asBlock test body rest) m
  | when {scope loaded : List Reg} {asBlock : Bool} {test : Test} {flipped : Op}
      {body rest : Flow} {loads : List Item} {operands : List Operand} {exit : String}
      {inner m : List (Bool × Item)} :
      ¬ body.isSilent → test.op.flip = .ok flipped →
      Node.forks? flipped (operands ++ [.label exit]) = some (operands, .label exit) →
      Fetched scope test.terms loads operands loaded →
      Laid scope body inner → Laid scope rest m →
      Laid scope (.when asBlock test body rest)
        (marked false (loads ++ [branch flipped operands exit]) ++
          (inner ++ (marked false [.label exit none] ++ m)))
  | skipLoop {scope : List Reg} {rounds : Rounds} {r : Reg} {body rest : Flow}
      {m : List (Bool × Item)} :
      body.isSilent → Laid (rounds.leaving r body.taken ++ scope) rest m →
      Laid scope (.loop rounds r body rest) m
  | loop {scope : List Reg} {rounds : Rounds} {r : Reg} {body rest : Flow} {labels : LoopLabels}
      {inner m : List (Bool × Item)} :
      ¬ body.isSilent → r ∈ Reg.ofBank .r → r ∉ scope →
      Laid (r :: scope) body inner → Laid (rounds.leaving r body.taken ++ scope) rest m →
      Laid scope (.loop rounds r body rest)
        (marked false (loopStart labels r rounds.range) ++
          (inner ++ (marked false (loopEnd labels r rounds.range) ++ m)))

-- Nothing is laid out for a flow without commands, and only for such a flow.
theorem Laid.isSilent_iff (hLaid : Laid scope f m) : unmarked m = [] ↔ f.isSilent := by
  induction hLaid with
  | done => simp [isSilent, unmarked]
  | act _ ih => simp [isSilent, barely, ih]
  | skipWhen hSilent _ ih => simp [isSilent, hSilent, ih]
  | when hBody _ _ _ _ _ _ _ => simp [isSilent, hBody]
  | skipLoop hSilent _ ih => simp [isSilent, hSilent, ih]
  | loop hBody _ _ _ _ _ _ => simp [isSilent, hBody, loopStart]

---- Lines of a flow

-- The lines, from one on, at which the commands of a flow start.
def linesFrom : Nat → List (Bool × Item) → List Nat
  | _, [] => []
  | n, (_, .label _ _) :: rest => linesFrom n rest
  | n, (true, .command c) :: rest => n :: linesFrom (n + c.size) rest
  | n, (false, .command c) :: rest => linesFrom (n + c.size) rest

theorem le_of_mem_linesFrom {line : Nat} (hLine : line ∈ linesFrom n m) : n ≤ line := by
  fun_induction linesFrom n m with
  | case1 => exact absurd hLine not_mem_nil
  | case2 n own name hostLine rest ih => exact ih hLine
  | case3 n c rest ih =>
    rcases mem_cons.mp hLine with rfl | hLater
    · exact Nat.le_refl _
    · exact Nat.le_trans (Nat.le_add_right _ _) (ih hLater)
  | case4 n c rest ih => exact Nat.le_trans (Nat.le_add_right _ _) (ih hLine)

-- The commands of a flow are laid out in the order in which they are written.
theorem linesFrom_increasing (n : Nat) (m : List (Bool × Item)) :
    (linesFrom n m).Pairwise (· < ·) := by
  fun_induction linesFrom n m with
  | case1 => exact .nil
  | case2 n own name hostLine rest ih => exact ih
  | case3 n c rest ih =>
    refine .cons (fun _ hLine => ?_) ih
    exact Nat.lt_of_lt_of_le (Nat.lt_add_of_pos_right (Nat.succ_pos _)) (le_of_mem_linesFrom hLine)
  | case4 n c rest ih => exact ih

-- A command is at one of these lines exactly if it is marked.
theorem mem_linesFrom_iff (n : Nat) (front : List (Bool × Item)) (own : Bool) (c : Command)
    (rest : List (Bool × Item)) :
    n + size (unmarked front) ∈ linesFrom n (front ++ (own, .command c) :: rest) ↔ own = true := by
  have hPositive : ∀ c : Command, 0 < c.size := fun _ => Nat.succ_pos _
  induction front generalizing n with
  | nil =>
    cases own with
    | true => exact iff_of_true mem_cons_self rfl
    | false =>
      refine iff_of_false (fun hLine => ?_) Bool.false_ne_true
      have hLater := le_of_mem_linesFrom (n := n + c.size) hLine
      have hHere := hPositive c
      simp only [unmarked, map_nil, size] at hLater
      omega
  | cons item front ih =>
    rcases item with ⟨mark, c' | _⟩
    · have hHere := hPositive c'
      have hLater := ih (n + c'.size)
      rw [Nat.add_assoc] at hLater
      cases mark with
      | false => exact hLater
      | true =>
        refine (mem_cons.trans (or_iff_right fun hSame => ?_)).trans hLater
        simp only [unmarked, map_cons, size] at hSame
        omega
    · exact ih n

def bareAt (items : List Item) (line : Nat) : Option Item :=
  (commandAt items line).map fun c => (Item.command c).bare

-- The marked commands, without their lines of the application.
def ownItems (m : List (Bool × Item)) : List Item :=
  m.filterMap fun p => if p.1 then p.2.command?.map fun c => (Item.command c).bare else none

theorem bareAt_linesFrom (done m : List (Bool × Item)) :
    (linesFrom (size (unmarked done)) m).map (bareAt (unmarked (done ++ m))) =
      (ownItems m).map some := by
  induction m generalizing done with
  | nil => rfl
  | cons item rest ih =>
    have hLater := ih (done ++ [item])
    rw [append_assoc, singleton_append, unmarked_append done [item], Assembly.size_append] at hLater
    rcases item with ⟨own, c | _⟩
    · have hHere : commandAt (unmarked (done ++ (own, .command c) :: rest)) (size (unmarked done)) =
          some c := by
        rw [unmarked_append]
        exact Assembly.commandAt_append (unmarked done) (.command c :: unmarked rest) 0
      cases own with
      | false => exact hLater
      | true =>
        refine congrArg₂ List.cons ?_ hLater
        rw [bareAt, hHere]
        rfl
    · cases own <;> exact hLater

theorem commands_of_isSilent (hSilent : f.isSilent) : f.commands = [] := by
  induction f with
  | done => rfl
  | act x commands kept rest ih =>
    simp only [isSilent, Bool.and_eq_true, List.isEmpty_iff] at hSilent
    rw [Flow.commands, hSilent.1, ih hSilent.2]
    rfl
  | when asBlock test body rest ihBody ihRest | loop rounds r body rest ihBody ihRest =>
    simp only [isSilent, Bool.and_eq_true] at hSilent
    rw [Flow.commands, ihBody hSilent.1, ihRest hSilent.2]
    rfl

theorem Laid.ownItems_eq (hLaid : Laid scope f m) : ownItems m = barely f.commands := by
  have hAppend : ∀ m m', ownItems (m ++ m') = ownItems m ++ ownItems m' := fun _ _ =>
    filterMap_append
  have hAround : ∀ items, ownItems (marked false items) = [] := fun items => by
    simp [ownItems, marked]
  induction hLaid with
  | done => rfl
  | act _ ih =>
    rw [hAppend, ih]
    simp [ownItems, marked, barely, commands, filterMap_map, Function.comp_def, bare, Item.command?]
  | skipWhen hSilent _ ih | skipLoop hSilent _ ih =>
    rw [commands, commands_of_isSilent hSilent]
    exact ih
  | when _ _ _ _ _ _ ihBody ihRest | loop _ _ _ _ _ ihBody ihRest =>
    simp [hAppend, hAround, ihBody, ihRest, commands, barely]

theorem Laid.commands_eq (hLaid : Laid scope f m) : (linesFrom 0 m).map (bareAt (unmarked m)) =
    f.commands.map fun c => some (Item.command c).bare := by
  refine (bareAt_linesFrom [] m).trans ?_
  rw [hLaid.ownItems_eq, barely, map_map]
  rfl

---- Commands of a layout

-- No number is written to, and branches lead to labels.
structure Clear (c : Command) : Prop where
  writes : ∀ j ∈ target? c.op, ∀ o ∈ c.inputs[j]?, o.number? = none
  leads : ∀ fork ∈ Node.forks? c.op c.inputs, (label? fork.2).isSome

theorem Straight.clear (hStraight : Straight loops scope c) : Clear c := by
  refine ⟨hStraight.writes, fun _ hFork => ?_⟩
  rw [hStraight.onward] at hFork
  cases hFork

theorem AllStraight.mem {commands : List Command} (hStraight : AllStraight loops scope commands)
    (hCommand : c ∈ commands) : ∃ inner, Straight loops inner c := by
  induction commands generalizing scope with
  | nil => exact absurd hCommand not_mem_nil
  | cons first rest ih =>
    rcases mem_cons.mp hCommand with rfl | hLater
    · exact ⟨scope, hStraight.1⟩
    · exact ih hStraight.2 hLater

theorem forks?_concat (hForks : Node.forks? op (os ++ [last]) = some (compared, target)) :
    target = last := by
  rcases os with _ | ⟨a, _ | ⟨b, _ | ⟨c, rest⟩⟩⟩
  · cases op <;> cases hForks
    rfl
  · cases op <;> cases hForks <;> rfl
  · cases op <;> cases hForks <;> rfl
  · cases rest <;> cases op <;> cases hForks

theorem target?_of_flip (hFlip : op.flip = .ok flipped) : target? flipped = none := by
  cases op <;> cases hFlip <;> rfl

theorem Fetched.clear {loaded : List Reg} {loads : List Item}
    (hFetched : Fetched scope terms loads os loaded) (hCommand : Item.command c ∈ loads) :
    Clear c := by
  induction hFetched with
  | nil => exact absurd hCommand not_mem_nil
  | number _ ih | register _ ih => exact ih hCommand
  | entry _ _ _ _ ih =>
    rcases mem_cons.mp hCommand with hHere | hLater
    · cases hHere
      refine ⟨?_, fun _ hFork => ?_⟩
      · rintro j ⟨⟩ o ⟨⟩
        rfl
      · cases hFork
    · exact ih hLater

theorem clear_around
    (hCommand : Item.command c ∈ loopStart labels r rounds.range ++ loopEnd labels r rounds.range) :
    Clear c := by
  simp only [loopStart, loopEnd, command, Command.plain, cons_append, nil_append, mem_cons,
    Item.command.injEq, reduceCtorEq, false_or, not_mem_nil, or_false] at hCommand
  rcases hCommand with rfl | rfl | rfl | rfl <;> refine ⟨?_, ?_⟩ <;> rintro _ ⟨⟩
  -- Two of them write to a register, and two lead to a label.
  all_goals first | rfl | (rintro _ ⟨⟩; rfl)

theorem Laid.clear (hLaid : Laid scope f m) (hScoped : Scoped loops scope f)
    (hCommand : Item.command c ∈ unmarked m) : Clear c := by
  induction hLaid generalizing loops with
  | done => exact absurd hCommand not_mem_nil
  | act _ ih =>
    rw [unmarked_append, unmarked_marked] at hCommand
    rcases mem_append.mp hCommand with hHere | hLater
    · rcases mem_map.mp hHere with ⟨_, hMember, ⟨⟩⟩
      rcases hScoped.1.mem hMember with ⟨_, hStraight⟩
      exact ⟨hStraight.clear.writes, hStraight.clear.leads⟩
    · exact ih hScoped.2.2 hLater
  | skipWhen _ _ ih | skipLoop _ _ ih => exact ih hScoped.2.2 hCommand
  | when _ hFlip _ hFetched _ _ ihBody ihRest =>
    simp only [unmarked_append, unmarked_marked, mem_append, mem_singleton] at hCommand
    rcases hCommand with (hLoad | hBranch) | hBody | hLabel | hRest
    · exact hFetched.clear hLoad
    · cases hBranch
      refine ⟨fun j hTarget => ?_, ?_⟩
      · cases (target?_of_flip hFlip).symm.trans hTarget
      · rintro ⟨_, target⟩ hFork
        cases forks?_concat hFork
        rfl
    · exact ihBody hScoped.2.1 hBody
    · cases hLabel
    · exact ihRest hScoped.2.2 hRest
  | loop _ _ _ _ _ ihBody ihRest =>
    simp only [unmarked_append, unmarked_marked, mem_append] at hCommand
    rcases hCommand with hOpening | hBody | hClosing | hRest
    · exact clear_around (mem_append_left _ hOpening)
    · exact ihBody hScoped.2.1 hBody
    · exact clear_around (mem_append_right _ hClosing)
    · exact ihRest hScoped.2.2 hRest

---- Layouts one behind the other

open Draft Session Assembly

variable {loaded : List Reg}

-- The lines of the application do not count for how long items are.
theorem size_map_bare (items : List Item) : size (items.map bare) = size items := by
  fun_induction size items with
  | case1 => rfl
  | case2 name line rest ih => exact ih
  | case3 c rest ih => exact congrArg (c.size + ·) ih

theorem taken_append (f g : Flow) : (f.append g).taken = g.taken ++ f.taken := by
  induction f with
  | done => exact (append_nil _).symm
  | when asBlock test body rest _ ih => exact ih
  | act x commands kept rest ih | loop rounds r body rest _ ih => simp [Flow.append, taken, ih]

theorem Laid.append (hFirst : Laid scope f m) (hThen : Laid (f.taken ++ scope) g m') :
    Laid scope (f.append g) (m ++ m') := by
  induction hFirst with
  | done => exact hThen
  | act _ ih =>
    rw [taken, append_assoc] at hThen
    rw [append_assoc]
    exact .act (ih hThen)
  | skipWhen hSilent _ ih => exact .skipWhen hSilent (ih hThen)
  | skipLoop hSilent _ ih =>
    rw [taken, append_assoc] at hThen
    exact .skipLoop hSilent (ih hThen)
  | when hBody hFlip hForks hFetched hInside _ _ ihRest =>
    simp only [append_assoc]
    exact .when hBody hFlip hForks hFetched hInside (ihRest hThen)
  | loop hBody hStandard hFresh hInside _ _ ihRest =>
    rw [taken, append_assoc] at hThen
    simp only [append_assoc]
    exact .loop hBody hStandard hFresh hInside (ihRest hThen)

-- Items for a flow, without their marks.
def Layout (scope : List Reg) (f : Flow) (items : List Item) : Prop :=
  ∃ m, Laid scope f m ∧ unmarked m = items

-- Items for a flow, whatever their lines of the application.
def Lays (scope : List Reg) (f : Flow) (items : List Item) : Prop :=
  Layout scope f (items.map bare)

theorem Layout.append {g : Flow} (hFirst : Layout scope f items)
    (hThen : Layout (f.taken ++ scope) g later) : Layout scope (f.append g) (items ++ later) := by
  rcases hFirst with ⟨m, hLaid, rfl⟩
  rcases hThen with ⟨m', hLaid', rfl⟩
  exact ⟨m ++ m', hLaid.append hLaid', unmarked_append m m'⟩

---- Comparing

variable {loads : List Item} {o : Operand} {spot : Spot} {test : Test} {w : Value}
open Draft Session
variable {finish start : List Item} {a : Term} {v : Value}
variable {s t : Session}

-- The values of the application that stand for a spot, and those that stand for a term.
inductive Spot.Given (s : Session) : Spot → Value → Prop
  | number (i : Int) : Given s (.number i) (.int i)
  | register (r : Reg) : Given s (.register r) (.reg r)
  | future {id : Nat} {r : Reg} : s.place? id = some (.register (some r)) →
      Given s (.register r) (.future id)

inductive Term.Given (s : Session) : Term → Value → Prop
  | number (n : Int) : Given s (.number n) (.int n)
  | register {id : Nat} {r : Reg} : s.place? id = some (.register (some r)) →
      Given s (.register r) (.future id)
  | entry {id : Nat} {address : Int} {spot : Spot} {i : Value} :
      s.place? id = some (.entry address i) → spot.isAt s i → Given s (.entry address spot) (.future id)

theorem Spot.given (hAt : spot.isAt s v) : spot.Given s v := by
  unfold isAt at hAt
  split at hAt
  · cases of_decide_eq_true hAt
    exact .number _
  · cases of_decide_eq_true hAt
    exact .register _
  · split at hAt
    · rename_i hPlace
      cases of_decide_eq_true hAt
      exact .future hPlace
    · cases hAt
  · cases hAt

theorem Term.given (hGiven : a.isGivenBy s v) : a.Given s v := by
  unfold isGivenBy at hGiven
  split at hGiven
  · cases of_decide_eq_true hGiven
    exact .number _
  · split at hGiven
    · rename_i hPlace
      cases of_decide_eq_true hGiven
      exact .register hPlace
    · cases hGiven
  · split at hGiven
    · rename_i hPlace
      simp only [Bool.and_eq_true, decide_eq_true_eq] at hGiven
      exact .entry (hGiven.1 ▸ hPlace) hGiven.2
    · cases hGiven
  · cases hGiven

theorem Spot.isAt_of_frame (hFrame : Frame s t) (hAt : spot.isAt s v) : spot.isAt t v := by
  cases given hAt with
  | number i | register r => exact hAt
  | future hPlace => simp [isAt, hFrame.places _ _ hPlace (by rintro ⟨⟩)]

theorem Term.isGivenBy_of_frame (hFrame : Frame s t) (hGiven : a.isGivenBy s v) :
    a.isGivenBy t v := by
  cases given hGiven with
  | number n => exact hGiven
  | register hPlace => simp [isGivenBy, hFrame.places _ _ hPlace (by rintro ⟨⟩)]
  | entry hPlace hAt =>
    simp [isGivenBy, hFrame.places _ _ hPlace (by rintro ⟨⟩), Spot.isAt_of_frame hFrame hAt]

theorem Test.isMet_of_frame (hFrame : Frame s t) (hMet : test.isMet s) : test.isMet t := by
  rcases test with ⟨_, _, right, _, _ | _⟩
  · simp only [isMet, Bool.and_eq_true] at hMet ⊢
    refine ⟨isGivenBy_of_frame hFrame hMet.1, ?_⟩
    cases right with
    | none => rfl
    | _ => cases hMet.2
  · simp only [isMet, Bool.and_eq_true] at hMet ⊢
    exact ⟨isGivenBy_of_frame hFrame hMet.1, isGivenBy_of_frame hFrame hMet.2⟩

theorem addressEntry_of_given {address : Int} {id : Nat}
    (hGiven : (Term.entry address spot).isGivenBy s (.future id)) :
    effect (addressEntry id) s = (.ok (.entry address spot.index), s) := by
  cases Term.given hGiven with
  | entry hPlace hAt =>
    rcases futureCell_of_place hPlace with ⟨_, hCell⟩
    rw [addressEntry, effect_bind, hCell]
    cases Spot.given hAt with
    | number i | register r => rfl
    | future hInner =>
      rcases futureCell_of_place hInner with ⟨_, hInnerCell⟩
      simp only [effect_bind, hInnerCell]
      rfl

-- A value to compare is an operand as it is, or it is loaded into a register that was not in use.
theorem comparand_ok (hGiven : a.isGivenBy s v) (hScope : scope ⊆ s.inUse)
    (hEffect : effect (comparand v) s = (.ok (loads, o), t)) :
    ∃ loaded, Fetched scope [a] loads [o] loaded ∧ t = withRegisters (s.inUse ++ loaded) s ∧
      (∀ r ∈ loaded, r ∉ s.inUse) ∧
      ∀ u, Frame t u → effect (loadedRegister? v o) u = (.ok loaded.head?, u) := by
  have hSame : withRegisters (s.inUse ++ []) s = s := by
    rw [append_nil]
    rfl
  cases Term.given hGiven with
  | number n =>
    cases hEffect
    exact ⟨[], .number .nil, hSame.symm, by simp, fun u _ => rfl⟩
  | @register id r hPlace =>
    rcases futureCell_of_place hPlace with ⟨known, hCell⟩
    simp only [comparand, effect_bind, hCell] at hEffect
    cases hEffect
    refine ⟨[], .register .nil, hSame.symm, by simp, fun u hFrame => ?_⟩
    have hLater := hFrame.places id _ hPlace (by rintro ⟨⟩)
    rcases futureCell_of_place hLater with ⟨_, hLaterCell⟩
    simp only [loadedRegister?, effect_bind, hLaterCell]
    rfl
  | @entry id address spot i hPlace _ =>
    rcases futureCell_of_place hPlace with ⟨known, hCell⟩
    simp only [comparand] at hEffect
    rw [effect_bind, hCell] at hEffect
    rcases of_bind_ok hEffect with ⟨r, s', hTake, hLater⟩
    rcases takeRegister_ok hTake with ⟨hStandard, hUnused, rfl⟩
    have hTaken := frame_taken s [r]
    rw [effect_bind, addressEntry_of_given (Term.isGivenBy_of_frame hTaken hGiven)] at hLater
    cases hLater
    refine ⟨[r], .entry hStandard (fun hr => hUnused (hScope hr)) not_mem_nil .nil,
      rfl, by simpa using hUnused, fun u hFrame => ?_⟩
    have hThere := (hTaken.trans hFrame).places id _ hPlace (by rintro ⟨⟩)
    rcases futureCell_of_place hThere with ⟨_, hThereCell⟩
    simp only [loadedRegister?, effect_bind, hThereCell]
    rfl

---- Branches

theorem Fetched.cons (hFirst : Fetched scope [a] loads [o] loaded)
    (hRest : Fetched scope terms loads' os loaded') (hApart : ∀ r ∈ loaded, r ∉ loaded') :
    Fetched scope (a :: terms) (loads ++ loads') (o :: os) (loaded ++ loaded') := by
  cases hFirst with
  | number hNil =>
    cases hNil
    exact .number hRest
  | register hNil =>
    cases hNil
    exact .register hRest
  | entry hStandard hFresh _ hNil =>
    cases hNil
    exact .entry hStandard hFresh (hApart _ mem_cons_self) hRest

theorem Fetched.map_bare (hFetched : Fetched scope terms loads os loaded) :
    loads.map bare = loads := by
  induction hFetched with
  | nil => rfl
  | number _ ih | register _ ih => exact ih
  | entry _ _ _ _ ih => exact congrArg (_ :: ·) ih

theorem Fetched.loaded_eq (hFetched : Fetched scope [a] loads [o] loaded) :
    loaded.head?.toList = loaded ∧ loaded.length = a.loads := by
  cases hFetched with
  | number hNil | register hNil | entry _ _ _ hNil =>
    cases hNil
    exact ⟨rfl, rfl⟩

theorem flip_cases (hFlip : op.flip = .ok flipped) :
    ((op = .bez ∨ op = .bnz) ∧ (flipped = .bez ∨ flipped = .bnz)) ∨
      ((op ≠ .bez ∧ op ≠ .bnz) ∧ (flipped ≠ .bez ∧ flipped ≠ .bnz)) := by
  cases op <;> cases hFlip <;> decide

-- A branch of one value, whose register stays in use.
theorem branchItems_single (hOp : op = .bez ∨ op = .bnz) (hGiven : a.isGivenBy s v)
    (hScope : scope ⊆ s.inUse)
    (hEffect : effect (branchItems op v w) s = (.ok (start, finish), t)) :
    ∃ loads o exit loaded, start = loads ++ [branch op [o] exit] ∧
      finish = [.label exit none] ∧ Fetched scope [a] loads [o] loaded ∧
      Frame s t ∧ t.pending = s.pending ∧
      t.inUse.length = s.inUse.length + a.loads := by
  have hTest : (decide (op = .bez) || decide (op = .bnz)) = true := by
    rcases hOp with rfl | rfl <;> rfl
  rw [branchItems, if_pos hTest] at hEffect
  rcases of_bind_ok hEffect with ⟨exit, s₁, hLabel, hLater⟩
  rcases freshLabel_ok hLabel with ⟨supply, rfl⟩
  have hLabels := frame_withLabels s supply
  rcases of_bind_ok hLater with ⟨⟨load, o⟩, s₂, hCompare, ⟨⟩⟩
  rcases comparand_ok (isGivenBy_of_frame hLabels hGiven) hScope hCompare with
    ⟨loaded, hFetched, rfl, _⟩
  refine ⟨load, o, _, loaded, rfl, rfl, hFetched, hLabels.trans (frame_taken _ _), rfl, ?_⟩
  rw [← hFetched.loaded_eq.2]
  exact length_append

theorem branchItems_double {b : Term} (hOp : op ≠ .bez ∧ op ≠ .bnz) (hFirst : a.isGivenBy s v)
    (hSecond : b.isGivenBy s w) (hScope : scope ⊆ s.inUse)
    (hEffect : effect (branchItems op v w) s = (.ok (start, finish), t)) :
    ∃ loads o p exit loaded, start = loads ++ [branch op [o, p] exit] ∧
      finish = [.label exit none] ∧ Fetched scope [a, b] loads [o, p] loaded ∧
      Frame s t ∧ t.pending = s.pending ∧
      t.inUse.length = s.inUse.length := by
  have hTest : ¬ (decide (op = .bez) || decide (op = .bnz)) = true := by simp [hOp.1, hOp.2]
  have hSome : w ≠ .none := by
    rintro rfl
    cases b <;> cases hSecond
  rw [branchItems, if_neg hTest] at hEffect
  split at hEffect
  · exact absurd rfl hSome
  · rcases of_bind_ok hEffect with ⟨exit, s₁, hLabel, hLater⟩
    rcases freshLabel_ok hLabel with ⟨supply, rfl⟩
    have hLabels := frame_withLabels s supply
    rcases of_bind_ok hLater with ⟨⟨loadA, o⟩, s₂, hCompareA, hLater⟩
    rcases comparand_ok (isGivenBy_of_frame hLabels hFirst) hScope hCompareA with
      ⟨loadedA, hFetchedA, rfl, hUnusedA, hLoadedA⟩
    have hTakenA := hLabels.trans (frame_taken _ loadedA)
    rcases of_bind_ok hLater with ⟨⟨loadB, p⟩, s₃, hCompareB, hLater⟩
    rcases comparand_ok (isGivenBy_of_frame hTakenA hSecond)
      (fun r hr => hTakenA.registers (hScope hr)) hCompareB with
      ⟨loadedB, hFetchedB, rfl, hUnusedB, hLoadedB⟩
    have hTakenB := frame_taken (withRegisters ((withLabels supply s).inUse ++ loadedA)
        (withLabels supply s)) loadedB
    rw [effect_bind, hLoadedA _ hTakenB] at hLater
    dsimp only at hLater
    rw [effect_bind, hLoadedB _ (.refl _)] at hLater
    rcases of_bind_ok hLater with ⟨_, s₄, hRelease, ⟨⟩⟩
    have hParts : [loadedA.head?, loadedB.head?].filterMap id = loadedA ++ loadedB := by
      conv_rhs => rw [← hFetchedA.loaded_eq.1, ← hFetchedB.loaded_eq.1]
      cases loadedA.head? <;> rfl
    have hGiven : ∀ r ∈ loadedA ++ loadedB, r ∉ s.inUse := forall_mem_append.mpr
      ⟨hUnusedA, fun r hB hUsed => hUnusedB r hB (mem_append_left _ hUsed)⟩
    have hApart : ∀ r ∈ loadedA, r ∉ loadedB := by
      intro r hA hB
      exact hUnusedB r hB (mem_append_right _ hA)
    rw [hParts] at hRelease
    rcases releaseAll_ok hRelease with ⟨rfl, hLength⟩
    refine ⟨loadA ++ loadB, o, p, _, loadedA ++ loadedB, rfl, rfl,
      hFetchedA.cons hFetchedB hApart, ?_, rfl, ?_⟩
    · refine ⟨fun r hr => ?_, hTakenA.places, hTakenA.contexts, hTakenA.nextContext⟩
      rw [← diff_eq_foldl]
      exact mem_diff_of_mem (hTakenB.registers (hTakenA.registers hr)) fun hGivenBack =>
        hGiven r hGivenBack hr
    · simp only [inUse, withRegisters, withLabels, length_append] at hLength ⊢
      omega

theorem branchItems_ok (hFlip : test.op.flip = .ok flipped) (hMet : test.isMet s)
    (hScope : scope ⊆ s.inUse)
    (hEffect : effect (branchItems flipped test.left test.right) s = (.ok (start, finish), t)) :
    ∃ loads os exit loaded, start = loads ++ [branch flipped os exit] ∧
      finish = [.label exit none] ∧ Fetched scope test.terms loads os loaded ∧
      Node.forks? flipped (os ++ [.label exit]) = some (os, .label exit) ∧
      Frame s t ∧ t.pending = s.pending ∧
      t.inUse.length = s.inUse.length + test.strays := by
  rcases test with ⟨op, left, right, first, second⟩
  simp only [Test.isMet, Bool.and_eq_true] at hMet
  rcases flip_cases hFlip with ⟨hOp, hFlipped⟩ | ⟨hOp, hFlipped⟩
  · rcases branchItems_single hFlipped hMet.1 hScope hEffect with
      ⟨loads, o, exit, loaded, rfl, rfl, hFetched, hFrame, hPending, hLength⟩
    have hTerms : Test.terms ⟨op, left, right, first, second⟩ = [first] := by
      rcases hOp with rfl | rfl <;> rfl
    have hStrays : Test.strays ⟨op, left, right, first, second⟩ = first.loads := by
      rcases hOp with rfl | rfl <;> rfl
    have hForks : Node.forks? flipped ([o] ++ [.label exit]) = some ([o], .label exit) := by
      rcases hFlipped with rfl | rfl <;> rfl
    rw [← hTerms] at hFetched
    exact ⟨loads, [o], exit, loaded, rfl, rfl, hFetched, hForks, hFrame, hPending,
      hStrays ▸ hLength⟩
  · have hTest : ¬ (decide (op = .bez) || decide (op = .bnz)) = true := by simp [hOp.1, hOp.2]
    cases second with
    | none =>
      -- Without a second value there is nothing to compare with.
      have hNothing : right = .none := by
        cases right with
        | none => rfl
        | _ => cases hMet.2
      have hFlippedTest : ¬ (decide (flipped = .bez) || decide (flipped = .bnz)) = true := by
        simp [hFlipped.1, hFlipped.2]
      subst hNothing
      rw [branchItems, if_neg hFlippedTest] at hEffect
      cases hEffect
    | some b =>
      rcases branchItems_double hFlipped hMet.1 hMet.2 hScope hEffect with
        ⟨loads, o, p, exit, loaded, rfl, rfl, hFetched, hFrame, hPending, hLength⟩
      have hTerms : Test.terms ⟨op, left, right, first, some b⟩ = [first, b] := by
        rw [Test.terms, if_neg hTest]
        rfl
      have hForks : Node.forks? flipped ([o, p] ++ [.label exit]) = some ([o, p], .label exit) := by
        cases op <;> cases hFlip <;> first | rfl | exact absurd rfl hOp.1 | exact absurd rfl hOp.2
      rw [← hTerms] at hFetched
      refine ⟨loads, [o, p], exit, loaded, rfl, rfl, hFetched, hForks, hFrame, hPending, ?_⟩
      rw [Test.strays, if_neg hTest]
      exact hLength

end QuantumNode.Flow
