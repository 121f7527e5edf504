import QuantumNode.Proofs.Flow.Layout

/-
  A draft follows a reading: from one place to another it carries out the same commands in linked
  states, or it fails where the reading does. At a condition, entries of arrays are loaded, and the
  branch around the body is taken exactly if the condition does not hold.
-/

open List

namespace QuantumNode.Flow
open Draft Node Machine Assembly Command Constants Item Reading
variable {c : Command} {rest : List Item} {scope : List Reg} {reading : Reading}
variable {whole : List Item} {sub : Nat} {app : Int} {lines : List Nat} (items : List Item)

-- A command that is carried out, in a reading and in a run of a draft.
structure VisitAlike (whole : List Item) (sub : Nat) (app : Int) (v : Visit)
    (w : List Item × Node) : Prop where
  command : commandAt whole (lineOf whole w.1) = some { v.command with line := none }
  linked : Linked sub app (view v.scope []) v.state w.2

-- The steps at given lines are the visits of a reading.
def Seen (whole : List Item) (sub : Nat) (app : Int) (lines : List Nat) (visits : List Visit)
    (steps : List (List Item × Node)) : Prop :=
  Forall₂ (VisitAlike whole sub app) visits (steps.filter fun w => lineOf whole w.1 ∈ lines)

theorem Seen.append {visits more : List Visit} {steps others : List (List Item × Node)}
    (hFirst : Seen whole sub app lines visits steps)
    (hThen : Seen whole sub app lines more others) :
    Seen whole sub app lines (visits ++ more) (steps ++ others) := by
  unfold Seen
  rw [filter_append]
  exact rel_append hFirst hThen

theorem lineOf_eq {done : List Item} (hWhole : whole = done ++ rest) :
    lineOf whole rest = size done := by
  unfold lineOf
  rw [hWhole, size_append]
  omega

-- A command is at a line of the flow exactly if it is marked.
theorem lineOf_mem_iff {whole done tail : List (Bool × Item)} {own : Bool}
    (hWhole : whole = done ++ tail) (hHead : tail.head? = some (own, .command c)) :
    lineOf (unmarked whole) (unmarked tail) ∈ linesFrom 0 whole ↔ own = true := by
  rcases head?_eq_some_iff.mp hHead with ⟨rest, rfl⟩
  have hItems : unmarked whole = unmarked done ++ unmarked ((own, .command c) :: rest) :=
    hWhole ▸ unmarked_append _ _
  have hMark := mem_linesFrom_iff 0 done own c rest
  rwa [← hWhole, Nat.zero_add, ← lineOf_eq hItems] at hMark

def skipLabels : List Item → List Item
  | .label _ _ :: rest => skipLabels rest
  | items => items

-- Places that differ by the labels in front only.
def SamePlace (start start' : List Item) : Prop := skipLabels start' = skipLabels start

theorem next_skipLabels : Draft.next (skipLabels items) = Draft.next items := by
  fun_induction skipLabels with
  | case1 name line rest ih => exact ih
  | case2 => rfl

theorem size_skipLabels : size (skipLabels items) = size items := by
  fun_induction skipLabels with
  | case1 name line rest ih => exact ih
  | case2 => rfl

namespace SamePlace
variable {start start' : List Item}

theorem next_eq (hPlace : SamePlace start start') : Draft.next start' = Draft.next start := by
  rw [← next_skipLabels start', hPlace, next_skipLabels]

theorem lineOf_eq (hPlace : SamePlace start start') : lineOf whole start' = lineOf whole start := by
  unfold lineOf
  rw [← size_skipLabels start', hPlace, size_skipLabels]

theorem program_eq (hPlace : SamePlace start start') (hNext : Draft.next start = some (c, rest)) :
    Draft.program whole sub start' = some (Draft.step whole sub c rest) := by
  simp [Draft.program, hPlace.next_eq, hNext]

end SamePlace

-- A run of a draft from a place to another one, or to a fault of a kind. The first view holds if it
-- fails, the second one if it does not.
def EndsAs (whole : List Item) (sub : Nat) (app : Int) (E V : View) (start stop : List Item)
    (steps : List (List Item × Node)) (s t : Node) : Except Fault Unit → Prop
  | .ok _ => ∃ stop' t', Path (Draft.program whole sub) start t steps stop' t' ∧
      SamePlace stop stop' ∧ Linked sub app V s t'
  | .error e => ∃ e' t', Run (Draft.program whole sub) start t steps (.error e') t' ∧
      e'.category = e.category ∧ Linked sub app E s t'

namespace EndsAs
variable {E V : View} {start stop : List Item} {s t : Node} {r : Except Fault Unit}
  {steps more : List (List Item × Node)}

theorem mono (hEnds : EndsAs whole sub app E V start stop steps s t r) (hError : E'.Weaker E)
    (hOk : V'.Weaker V) (hStop : SamePlace stop' stop) :
    EndsAs whole sub app E' V' start stop' steps s t r := by
  cases r with
  | ok _ =>
    rcases hEnds with ⟨_, t', hPath, hPlace, hLinked⟩
    exact ⟨_, t', hPath, hPlace.trans hStop, hLinked.mono hOk⟩
  | error e =>
    rcases hEnds with ⟨e', t', hRun, hCategory, hLinked⟩
    exact ⟨e', t', hRun, hCategory, hLinked.mono hError⟩

theorem after (hPath : Path (Draft.program whole sub) start t steps place u)
    (hEnds : EndsAs whole sub app E V place stop more s u r) :
    EndsAs whole sub app E V start stop (steps ++ more) s t r := by
  cases r with
  | ok _ =>
    rcases hEnds with ⟨stop', t', hLater, hEnd⟩
    exact ⟨stop', t', hPath.append hLater, hEnd⟩
  | error e =>
    rcases hEnds with ⟨e', t', hLater, hEnd⟩
    exact ⟨e', t', hPath.run hLater, hEnd⟩

end EndsAs

-- A draft that follows a reading from one place to another.
def Goes (whole : List Item) (sub : Nat) (app : Int) (lines : List Nat) (E V : View)
    (start stop : List Item) (reading : Reading) (t : Node) : Prop :=
  ∀ start', SamePlace start start' → ∃ steps, Seen whole sub app lines reading.visits steps ∧
    EndsAs whole sub app E V start' stop steps reading.state t reading.result

namespace Goes
variable {E V W : View} {start middle stop : List Item} {s t : Node}

protected theorem still (hLinked : Linked sub app V s t) (hPlace : SamePlace stop start) :
    Goes whole sub app lines E V start stop (.still s) t :=
  fun start' hStart => ⟨[], .nil, start', t, .here, hStart.trans hPlace, hLinked⟩

theorem mono (hGoes : Goes whole sub app lines E V start stop reading t) (hError : E'.Weaker E)
    (hOk : V'.Weaker V) : Goes whole sub app lines E' V' start stop reading t := by
  intro start' hStart
  rcases hGoes start' hStart with ⟨steps, hSeen, hEnds⟩
  exact ⟨steps, hSeen, hEnds.mono hError hOk rfl⟩

theorem moved (hGoes : Goes whole sub app lines E V start stop reading t)
    (hStart : SamePlace start start₂) (hStop : SamePlace stop₂ stop) :
    Goes whole sub app lines E V start₂ stop₂ reading t := by
  intro start' hPlace
  rcases hGoes start' (hPlace.trans hStart) with ⟨steps, hSeen, hEnds⟩
  exact ⟨steps, hSeen, hEnds.mono (.refl _) (.refl _) hStop⟩

theorem andThen (hFirst : Goes whole sub app lines E V start middle reading t)
    (hThen : ∀ t', Linked sub app V reading.state t' →
        Goes whole sub app lines E W middle stop (later reading.state) t') :
    Goes whole sub app lines E W start stop (reading.andThen later) t := by
  rcases reading with ⟨_, e | _, s⟩
  · exact hFirst
  · intro start' hStart
    rcases hFirst start' hStart with ⟨steps, hSeen, place, t₁, hPath, hPlace, hLinked⟩
    rcases hThen t₁ hLinked place hPlace with ⟨more, hSeen', hEnds⟩
    exact ⟨steps ++ more, hSeen.append hSeen', hEnds.after hPath⟩

-- A step of the draft that is not one of the program.
theorem after {α : Type} {U : View} {x : NodeM α} {Q : α → List Item → Node → Node → Prop}
    {later : α → Node → Reading} (hNext : Draft.next start = some (c, rest))
    (hLine : lineOf whole start ∉ lines) (hWeaker : E.Weaker U)
    (hLeads : LeadsTo (Linked sub app U) Q x (Draft.step whole sub c rest))
    (hThen :
      ∀ a place s' t', Q a place s' t' → Goes whole sub app lines E V place stop (later a s') t')
    (hLinked : Linked sub app U s t) :
    Goes whole sub app lines E V start stop (.after x later s) t := by
  intro start' hStart
  have hUnseen : Seen whole sub app lines [] [(start', t)] := by
    unfold Seen
    rw [filter_cons, if_neg (by simpa [hStart.lineOf_eq] using hLine)]
    exact .nil
  have hAlike := hLeads s t hLinked
  unfold Reading.after
  generalize effect x s = left at hAlike
  rcases left with ⟨e | a, s'⟩ <;>
    rcases hRight : effect (Draft.step whole sub c rest) t with ⟨e' | place, t'⟩ <;>
    rw [hRight] at hAlike
  · exact ⟨_, hUnseen, e', t', .fail (hStart.program_eq hNext) hRight, hAlike.1,
      hAlike.2.mono hWeaker⟩
  · exact hAlike.elim
  · exact hAlike.elim
  · rcases hThen a place s' t' hAlike place rfl with ⟨steps, hSeen, hEnds⟩
    exact ⟨_, hUnseen.append hSeen, hEnds.after (.next (hStart.program_eq hNext) hRight .here)⟩

theorem single (hNext : Draft.next start = some ({ c with line := none }, rest))
    (hCommand : commandAt whole (lineOf whole start) = some { c with line := none })
    (hLine : lineOf whole start ∈ lines)
    (hSim : SimTo (Linked sub app E) (Linked sub app V) (fun _ place => place = stop)
        x (Draft.step whole sub { c with line := none } rest)) (hScope : (view scope []).Weaker E)
    (hLinked : Linked sub app E s t) :
    Goes whole sub app lines E V start stop (.single x c scope s) t := by
  intro start' hStart
  have hSeen : Seen whole sub app lines [⟨c, scope, s⟩] [(start', t)] := by
    unfold Seen
    rw [filter_cons, if_pos (by simpa [hStart.lineOf_eq] using hLine)]
    exact .cons ⟨hStart.lineOf_eq ▸ hCommand, hLinked.mono hScope⟩ .nil
  have hAlike := hSim s t hLinked
  unfold Reading.single
  generalize effect x s = left at hAlike
  rcases left with ⟨e | _, _⟩ <;>
    rcases hRight : effect (Draft.step whole sub { c with line := none } rest) t with ⟨e' | place, t'⟩ <;>
    rw [hRight] at hAlike
  · exact ⟨_, hSeen, e', t', .fail (hStart.program_eq hNext) hRight, hAlike.1, hAlike.2⟩
  · exact hAlike.elim
  · exact hAlike.elim
  · rcases hAlike with ⟨rfl, hLinked'⟩
    exact ⟨_, hSeen, place, t', .next (hStart.program_eq hNext) hRight .here, rfl, hLinked'⟩

end Goes

namespace Reading
variable {α β : Type}

theorem after_pure (a : α) (next : α → Node → Reading) : after (pure a) next = next a := rfl

theorem after_bind (x : NodeM α) (f : α → NodeM β) (next : β → Node → Reading) :
    after (x >>= f) next = after x fun a => after (f a) next := by
  funext s
  unfold after
  rw [effect_bind]
  rcases effect x s with ⟨e | a, t⟩ <;> rfl

end Reading

-- All commands have the operands that their operations take.
def Fits : Prop :=
  ∀ c, Item.command c ∈ items →
    ∃ P os', MatchFrom P (target? c.op) 0 c.op.slots (c.inputs.map (valued items)) os'

theorem Fits.straight (hFits : Fits whole) (hCommand : (Item.command c).bare ∈ whole)
    (hStraight : Straight loops scope c) :
    ∃ P os', MatchFrom P (target? c.op) 0 c.op.slots c.inputs os' := by
  rcases hFits _ hCommand with ⟨P, os', hMatch⟩
  have hValued : (inputs { c with line := none }).map (valued whole) = c.inputs :=
    map_valued hStraight.unlabelled
  rw [hValued] at hMatch
  exact ⟨P, os', hMatch⟩

section
variable {whole done : List (Bool × Item)} {held : List (Reg × Int)} {s t : Node}

theorem goes_commands {rest : List (Bool × Item)} (hFits : Fits (unmarked whole))
    {loops named : List Reg} (hLoops : held.map Prod.fst = loops) {commands : List Command}
    (hStraight : AllStraight loops scope commands) (hNamed : named ⊆ scope)
    (hWhole : whole = done ++ (marked true (barely commands) ++ rest))
    (hLinked : Linked sub app (view scope held) s t) :
    Goes (unmarked whole) sub app (linesFrom 0 whole) (view scope held)
      (view ((commands.flatMap fun c => outputs c.op c.inputs) ++ scope) held)
      (barely commands ++ unmarked rest) (unmarked rest) (readCommands sub named commands s) t := by
  induction commands generalizing scope done s t with
  | nil => exact Goes.still hLinked rfl
  | cons c commands ih =>
    have hItems : unmarked whole =
        unmarked done ++ (barely (c :: commands) ++ unmarked rest) := by
      rw [hWhole, unmarked_append, unmarked_append, unmarked_marked]
    have hMember : (Item.command c).bare ∈ unmarked whole :=
      hItems ▸ mem_append_right _ mem_cons_self
    have hCommand : commandAt (unmarked whole) (lineOf (unmarked whole)
        (barely (c :: commands) ++ unmarked rest)) = some { c with line := none } := by
      rw [lineOf_eq hItems, hItems]
      exact commandAt_append _ _ 0
    rcases hFits.straight hMember hStraight.1 with ⟨P, _, hMatch⟩
    have hSplit : whole = (done ++ [(true, (Item.command c).bare)]) ++
        (marked true (barely commands) ++ rest) := by
      rw [hWhole]
      simp [barely, marked]
    have hHere := (lineOf_mem_iff hWhole rfl).mpr rfl
    rw [unmarked_append, unmarked_marked] at hHere
    have hFirst := Goes.single rfl hCommand hHere (sim_obey hMatch hStraight.1 hLoops)
      (view_weaker hNamed (nil_subset _)) hLinked
    refine hFirst.andThen fun _ hLinked' => ?_
    have hRest := ih hStraight.2 (fun r hr => mem_append_right _ (hNamed hr)) hSplit hLinked'
    refine hRest.mono (view_weaker ?_ (fun _ hp => hp)) (view_weaker ?_ (fun _ hp => hp))
    · exact fun r hr => mem_append_right _ hr
    · intro r hr
      simp only [flatMap_cons, mem_append] at hr ⊢
      tauto

end

---- Conditions

variable {behindBody : List Item} {os : List Operand} {s t : Node} {exit : String}

open Draft Node Node.Linked Machine Assembly
variable {held : List (Reg × Int)} {loads : List Item} {operands : List Operand} {loaded : List Reg}
  {terms : List Term} {flipped op : Op} {r : Reg} {V : View}

-- Standard registers have a place, and are live only in scope.
theorem standard (hStandard : r ∈ Reg.ofBank .r) :
    r.bank = .r ∧ Registers.checkPlace r = .ok () := by
  have hAll : ∀ r ∈ Reg.ofBank .r, r.bank = .r ∧ Registers.checkPlace r = .ok () := by decide
  exact hAll r hStandard

theorem not_live (hStandard : r ∈ Reg.ofBank .r) (hFresh : r ∉ scope) : ¬ Live scope r :=
  fun hLive => hFresh (hLive (standard hStandard).1)

theorem step_load (rest : List Item) (r : Reg) (address : Int) (i : Index) :
    Draft.step whole sub (.plain .load [.reg r, .entry address i] none) rest = (do
      checkAll i.constants
      let _ ← (do
        let app ← appOf sub
        match ← readEntry app address i with
        | none => do
          throw (.node (.entryUndefined (Operand.entry address i).text))
          pure none
        | some v => do
          setReg app r v
          pure none : NodeM (Option Int))
      return rest) := by
  have hConstants : constants (.plain .load [.reg r, .entry address i] none) = i.constants := by
    simp [constants, inputs, plain, constantsFrom, Operand.constants]
  rw [Draft.step, hConstants]
  rfl

-- An entry that is looked up in the reading is loaded into a register of its own in the draft.
theorem leads_load (hStandard : r ∈ Reg.ofBank .r) (hFresh : r ∉ scope)
    (hFree : ∀ p ∈ held, p.1 ≠ r) (hSpot : ∀ q ∈ (Term.entry address spot).registers, Live scope q)
    (rest : List Item) :
    LeadsTo (Linked sub app (view scope held)) (fun o later s t => later = rest ∧
        ∃ v, o = .int v ∧ Linked sub app (view scope (held ++ [(r, v)])) s t)
      (lookUp sub (.entry address spot))
      (Draft.step whole sub (.plain .load [.reg r, .entry address spot.index] none) rest) := by
  have hIndex : Sim (Linked sub app (view scope held)) Eq
      (evalIndex app spot.index) (evalIndex app spot.index) := by
    refine alike_sound.places ⟨rfl, ?_⟩
    cases spot with
    | number i => rintro q ⟨⟩
    | register q =>
      rintro _ ⟨⟩
      exact hSpot _ mem_cons_self
  rw [step_load]
  refine LeadsTo.bind (sim_blind (blind_checkAll _)) fun _ _ _ => ?_
  rw [bind_assoc]
  refine LeadsTo.bind sim_appOf fun a b hApp => ?_
  rw [hApp.1, hApp.2, bind_assoc]
  refine LeadsTo.bind (sim_readEntry hIndex address) ?_
  rintro v _ rfl
  cases v with
  | none => exact fun _ _ hLinked => ⟨rfl, hLinked⟩
  | some v =>
    intro s t hLinked
    have hHold := hLinked.hold (standard hStandard).2 (not_live hStandard hFresh) hFree v
    simp only [effect_bind, effect_get]
    generalize Block.checkWidth s.hardware v = fits at hHold
    cases fits with
    | error e =>
      rw [hHold]
      exact ⟨rfl, hLinked⟩
    | ok _ =>
      rcases hHold with ⟨_, hSet, hLinked'⟩
      rw [hSet]
      exact ⟨rfl, v, rfl, hLinked'⟩

-- All entries among terms are loaded one after the other; then the draft goes on with operands that
-- stand for the same values.
theorem Fetched.goes {whole done rest : List (Bool × Item)}
    (hFetched : Fetched scope terms loads operands loaded)
    (hLive : ∀ a ∈ terms, ∀ r ∈ a.registers, Live scope r) {stop : List Item}
    (hWhole : whole = done ++ (marked false loads ++ rest)) {E : View}
    (hWeaker : E.Weaker (view scope held)) (hFree : ∀ r ∈ loaded, ∀ p ∈ held, p.1 ≠ r)
    {later : List Operand → Node → Reading}
    (hThen : ∀ os more s' t', Forall₂ (ReadAlike (view scope (held ++ more))) os operands →
        Linked sub app (view scope (held ++ more)) s' t' →
        Goes (unmarked whole) sub app (linesFrom 0 whole) E V (unmarked rest) stop (later os s') t')
    (hLinked : Linked sub app (view scope held) s t) :
    Goes (unmarked whole) sub app (linesFrom 0 whole) E V (loads ++ unmarked rest) stop
      (.after (lookUpAll sub terms) later s) t := by
  induction hFetched generalizing done held later s t with
  | nil => exact hThen [] [] s t .nil (by simpa using hLinked)
  | number _ ih | register _ ih =>
    simp only [lookUpAll, lookUp, after_bind, after_pure]
    refine ih (fun a ha => hLive a (mem_cons_of_mem _ ha)) hWhole hWeaker hFree
      (fun os more s' t' hAlike hLinked' => ?_) hLinked
    refine hThen _ more s' t' (.cons (.same ?_) hAlike) hLinked'
    rintro _ ⟨⟩ <;> exact hLive _ mem_cons_self _ mem_cons_self
  | @entry address spot r terms loads operands loaded hStandard hFresh hNew _ ih =>
    have hSplit : after (lookUpAll sub (.entry address spot :: terms)) later =
        .after (lookUp sub (.entry address spot)) fun o =>
          .after (lookUpAll sub terms) fun os => later (o :: os) := by
      simp only [lookUpAll, after_bind, after_pure]
    have hRest : whole = (done ++ [(false, command .load [.reg r, .entry address spot.index])]) ++
        (marked false loads ++ rest) := by
      rw [hWhole]
      simp [marked]
    have hPlace := mt (lineOf_mem_iff hWhole rfl).mp Bool.false_ne_true
    rw [unmarked_append, unmarked_marked] at hPlace
    rw [hSplit]
    refine Goes.after rfl hPlace hWeaker (leads_load hStandard hFresh (hFree r mem_cons_self)
        (hLive _ mem_cons_self) (loads ++ unmarked rest)) ?_ hLinked
    rintro _ _ s' t' ⟨rfl, v, rfl, hLinked'⟩
    refine ih (fun a ha => hLive a (mem_cons_of_mem _ ha)) hRest
      (hWeaker.trans (view_weaker (fun _ hr => hr) (subset_append_left _ _))) ?_ ?_
      hLinked'
    · intro q hq p hp
      rcases mem_append.mp hp with hOld | hLoaded
      · exact hFree q (mem_cons_of_mem _ hq) p hOld
      · rw [mem_singleton.mp hLoaded]
        rintro rfl
        exact hNew hq
    · intro os more s'' t'' hAlike hLinked''
      rw [append_assoc] at hAlike hLinked''
      refine hThen _ _ s'' t'' (.cons (.held rfl (standard hStandard).2 ?_) hAlike) hLinked''
      exact mem_append_right _ mem_cons_self

section
variable (hFlip : op.flip = .ok flipped)
include hFlip
-- A flipped operation holds exactly if the operation does not.
theorem condition_of_flip (values : List (Option Int)) :
    flipped.condition values = (op.condition values).map (!·) := by
  have hOrder : ∀ a b : Int, decide (b ≤ a) = !decide (a < b) := by
    intro a b
    rw [← decide_not, decide_eq_decide]
    omega
  cases op with
  | beq | bne | bez | bnz =>
    cases hFlip
    rcases values with _ | ⟨a, _ | ⟨b, _ | ⟨c, rest⟩⟩⟩ <;>
      simp [Op.condition, Except.map, bne]
  | blt | bge =>
    cases hFlip
    rcases values with _ | ⟨_ | a, _ | ⟨_ | b, _ | ⟨c, rest⟩⟩⟩ <;>
      simp [Op.condition, Except.map, hOrder]
  | _ => cases hFlip

theorem ne_jmp_of_flip : op ≠ .jmp ∧ flipped ≠ .jmp := by cases op <;> cases hFlip <;> decide

-- The flipped branch is taken exactly if the condition does not hold.
theorem sim_takenFlipped (hAlike : Forall₂ (ReadAlike V) os operands) :
    Sim (Linked sub app V) (fun holds taken => taken = !holds)
      (takenWith ofOperand sub op os) (takenWith ofOperand sub flipped operands) := by
  refine sim_forApp (SimTo.bind_eq (alike_sound.sim_readAll hAlike) fun values => ?_)
  rw [if_neg (ne_jmp_of_flip hFlip).1, if_neg (ne_jmp_of_flip hFlip).2, condition_of_flip hFlip]
  intro s t hLinked
  cases op.condition values <;> exact ⟨rfl, hLinked⟩

end

-- Values that are compared are registers or numbers.
theorem Fetched.bare (hFetched : Fetched scope terms loads os loaded) :
    ∀ o ∈ os, label? o = none ∧ indexRegs o = [] := by
  induction hFetched with
  | nil => exact forall_mem_nil _
  | number _ ih | register _ ih | entry _ _ _ _ ih => exact forall_mem_cons.mpr ⟨⟨rfl, rfl⟩, ih⟩

theorem Fetched.constantsFrom (hFetched : Fetched scope terms loads os loaded)
    (hRead : ∀ j, place ≤ j → j < place + os.length → Constants.keeps op j = false)
    (exit : String) :
    Command.constantsFrom op place (os ++ [.label exit]) = terms.flatMap Term.numbers := by
  induction hFetched generalizing place with
  | nil => rfl
  | @number v terms loads os loaded _ ih =>
    rw [length_cons] at hRead
    have hHere := hRead place (by omega) (by omega)
    have hRest : Command.constantsFrom op (place + 1) (os ++ [.label exit]) =
        terms.flatMap Term.numbers :=
      ih fun j hFrom hTo => hRead j (by omega) (by omega)
    simp only [cons_append, Command.constantsFrom, Operand.constants, hRest, hHere]
    rfl
  | @register r terms loads os loaded _ ih
  | @entry _ _ r terms loads os loaded _ _ _ _ ih =>
    rw [length_cons] at hRead
    exact ih fun j hFrom hTo => hRead j (by omega) (by omega)

theorem keeps_of_forks (hForks : forks? op (os ++ [last]) = some (os, last))
    (hCompared : j < os.length) : keeps op j = false := by
  rcases os with _ | ⟨a, _ | ⟨b, _ | ⟨c, rest⟩⟩⟩
  · exact absurd hCompared (Nat.not_lt_zero j)
  · cases op <;> cases hForks <;> simp at hCompared <;> simp [keeps, hCompared]
  · have hOther : j ≠ 2 := Nat.ne_of_lt hCompared
    cases op <;> cases hForks <;> simp [keeps, hOther]
  · cases rest <;> cases op <;> cases hForks

-- The branch around a body leads into it if the condition holds, else behind it.
theorem leads_branch (hFlip : op.flip = .ok flipped)
    (hForks : forks? flipped (operands ++ [.label exit]) = some (operands, .label exit))
    (hFetched : Fetched scope terms loads operands loaded)
    (hExit : behind exit whole = some behindBody) (hAlike : Forall₂ (ReadAlike V) os operands) :
    LeadsTo (Linked sub app V) (fun holds place s t =>
        place = (if holds then rest else behindBody) ∧ Linked sub app V s t)
      (do
        checkAll (terms.flatMap Term.numbers)
        takenWith ofOperand sub op os)
      (Draft.step whole sub ⟨flipped, [], operands ++ [.label exit], none⟩ rest) := by
  have hConstants : constants ⟨flipped, [], operands ++ [.label exit], none⟩ =
      terms.flatMap Term.numbers :=
    hFetched.constantsFrom (fun j _ _ => keeps_of_forks hForks (by omega)) exit
  have hInputs :
      inputs ⟨flipped, [], operands ++ [.label exit], none⟩ = operands ++ [.label exit] :=
    rfl
  rw [Draft.step, hConstants]
  refine LeadsTo.bind (sim_blind (blind_checkAll _)) fun _ _ _ => ?_
  simp only [proceed, hInputs, hForks, map_valued fun o ho => (hFetched.bare o ho).1, goTo, hExit]
  intro s t hLinked
  have hTaken := sim_takenFlipped hFlip hAlike s t hLinked
  rw [effect_bind]
  generalize effect (takenWith ofOperand sub op os) s = first at hTaken
  generalize effect (takenWith ofOperand sub flipped operands) t = second at hTaken
  rcases first with ⟨e | holds, _⟩ <;> rcases second with ⟨e' | taken, t'⟩
  · exact hTaken
  · exact hTaken.elim
  · exact hTaken.elim
  · rcases hTaken with ⟨rfl, hLinked'⟩
    cases holds <;> exact ⟨rfl, hLinked'⟩

-- Registers that are loaded are not in scope.
theorem Fetched.fresh (hFetched : Fetched scope terms loads os loaded) :
    ∀ r ∈ loaded, r ∉ scope := by
  induction hFetched with
  | nil => exact forall_mem_nil _
  | number _ ih | register _ ih => exact ih
  | entry _ hFresh _ _ ih => exact forall_mem_cons.mpr ⟨hFresh, ih⟩

/-
  A condition: its body is carried out exactly if it holds, and
  the draft goes on behind the body.
-/
theorem goes_condition {whole done inner behindBody : List (Bool × Item)}
    (hFlip : op.flip = .ok flipped)
    (hForks : forks? flipped (operands ++ [.label exit]) = some (operands, .label exit))
    (hFetched : Fetched scope terms loads operands loaded)
    (hLive : ∀ a ∈ terms, ∀ r ∈ a.registers, Live scope r) (hHeld : ∀ p ∈ held, p.1 ∈ scope)
    (hWhole : whole = done ++ (marked false (loads ++ [branch flipped operands exit]) ++
        (inner ++ (marked false [.label exit none] ++ behindBody))))
    (hExit : behind exit (unmarked whole) = some (unmarked behindBody))
    (hWeaker : (view scope held).Weaker V) {inside : Node → Reading}
    (hBody : ∀ s' t', Linked sub app (view scope held) s' t' →
        Goes (unmarked whole) sub app (linesFrom 0 whole) (view scope held) V
          (unmarked (inner ++ (marked false [.label exit none] ++ behindBody)))
          (unmarked (marked false [.label exit none] ++ behindBody)) (inside s') t')
    (hLinked : Linked sub app (view scope held) s t) :
    Goes (unmarked whole) sub app (linesFrom 0 whole) (view scope held) (view scope held)
      (loads ++ (branch flipped operands exit ::
        unmarked (inner ++ (marked false [.label exit none] ++ behindBody))))
      (unmarked behindBody)
      (.after (holds sub op terms) (fun taken => if taken then inside else .still) s) t := by
  have hLoads : whole = done ++ (marked false loads ++ ((false, branch flipped operands exit) ::
      (inner ++ (marked false [.label exit none] ++ behindBody)))) := by
    rw [hWhole]
    simp [marked]
  have hFree : ∀ r ∈ loaded, ∀ p ∈ held, p.1 ≠ r := by
    rintro r hr p hp rfl
    exact hFetched.fresh _ hr (hHeld p hp)
  rw [holds, after_bind]
  refine hFetched.goes hLive hLoads (.refl _) hFree (fun _ more s' t' hAlike hLinked' => ?_) hLinked
  have hMore : (view scope held).Weaker (view scope (held ++ more)) :=
    view_weaker (fun _ hr => hr) (subset_append_left _ _)
  have hBranch := mt (lineOf_mem_iff (hLoads.trans (append_assoc ..).symm) rfl).mp Bool.false_ne_true
  refine Goes.after rfl hBranch hMore (leads_branch hFlip hForks hFetched hExit hAlike) ?_ hLinked'
  rintro taken _ s'' t'' ⟨rfl, hLinked''⟩
  cases taken with
  | false => exact Goes.still (hLinked''.mono hMore) rfl
  | true => exact ((hBody s'' t'' (hLinked''.mono hMore)).mono (.refl _) hWeaker).moved rfl rfl

end QuantumNode.Flow
