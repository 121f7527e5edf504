import QuantumNode.Proofs.Flow.Basic
import QuantumNode.Proofs.Mapping.Blocks

/-
  An instruction and its block run in step, on nodes that differ in the gates that they report and
  in some registers: the block ends at the start of the block for the next line, and the nodes then
  differ in no other registers than those that it soiled.
-/

open List

namespace QuantumNode.Mapping
open Node Draft Gate Registers Table

-- All registers agree but some; the host sees the same everywhere.
def clean (dirty : List Reg) : View := ⟨fun r => r ∉ dirty, fun _ => True, []⟩

def told (s : Node) : List Event := s.events.filter fun e => !e.isGate

-- Two nodes that run a subroutine of an application and differ only in the gates that they have
-- reported and in some of the registers.
structure Beside (sub : Nat) (app : Int) (dirty : List Reg) (s t : Node) : Prop where
  linked : Linked sub app (clean dirty) s (withEvents s.events t)
  told : told t = told s

theorem clean_weaker (hMore : dirty ⊆ more) : (clean more).Weaker (clean dirty) :=
  ⟨fun _ hr hDirty => hr (hMore hDirty), fun _ hr => hr, fun _ hp => hp⟩

theorem told_withEvents (hGates : ∀ e ∈ gates, e.isGate = true) :
    Mapping.told (withEvents (s.events ++ gates) s) = Mapping.told s := by
  have hNone : gates.filter (fun e => !e.isGate) = [] := by
    refine filter_eq_nil_iff.mpr fun e he => ?_
    simp [hGates e he]
  change (s.events ++ gates).filter _ = _
  rw [filter_append, hNone, append_nil]
  rfl

namespace Beside
variable {sub : Nat} {app : Int} {dirty : List Reg} {s t : Node}

theorem mono (hBeside : Beside sub app dirty s t) (hMore : dirty ⊆ more) :
    Beside sub app more s t :=
  ⟨hBeside.linked.mono (clean_weaker hMore), hBeside.told⟩

theorem of_hosts (hHosts : s.Hosts sub app) : Beside sub app [] s s :=
  ⟨hHosts.linked (clean []) rfl, rfl⟩

section
variable (hBeside : Beside sub app dirty s t)
include hBeside
theorem off : s.logger = .off ∧ t.logger = .off := hBeside.linked.hidden.off

-- Both nodes have registers, which agree where they have to.
theorem serves :
    ∃ regs regs', Serves s sub app regs ∧ Serves t sub app regs' ∧
      ∀ r, r ∉ dirty → regs'.value r = regs.value r := by
  rcases hBeside.linked.hidden.own with ⟨regs, regs', hLeft, hRight, hAgree, _⟩
  exact ⟨regs, regs', ⟨hBeside.linked.hosted, hLeft⟩, ⟨hBeside.linked.hosted_right, hRight⟩, hAgree⟩

theorem report_right (hGates : ∀ e ∈ gates, e.isGate = true) :
    Beside sub app dirty s (withEvents (t.events ++ gates) t) :=
  ⟨hBeside.linked, (told_withEvents hGates).trans hBeside.told⟩

end

-- What is in step on nodes that report the same is in step on nodes that do not.
theorem sim {α β : Type} {R : α → β → Prop} {x : NodeM α} {y : NodeM β} {after : List Reg}
    (hSim : SimTo (Linked sub app (clean dirty)) (Linked sub app (clean after)) R x y)
    (hDeaf : Deaf y) : SimTo (Beside sub app dirty) (Beside sub app after) R x y := by
  intro s t hBeside
  rcases hDeaf.adds t with ⟨more, hEvents, hSame⟩
  have hAlike := hSim s _ hBeside.linked
  rw [hSame] at hAlike
  -- Linked states report the same, so what one side adds the other adds too.
  have hBesideAfter : ∀ {others : List Reg} {s' : Node},
      Linked sub app (clean others) s' (withEvents (s.events ++ more) (effect y t).2) →
        Beside sub app others s' (effect y t).2 := by
    intro others s' hLinked
    have hOwn : s'.events = s.events ++ more := (congrArg Node.events hLinked.visible).symm
    refine ⟨by rwa [hOwn], ?_⟩
    unfold Mapping.told
    rw [hOwn, hEvents, filter_append, filter_append]
    exact congrArg (· ++ _) hBeside.told
  generalize effect x s = first at hAlike
  generalize effect y t = second at hAlike hBesideAfter
  rcases first with ⟨e | a, s'⟩ <;> rcases second with ⟨e' | b, t'⟩
  · exact ⟨hAlike.1, hBesideAfter hAlike.2⟩
  · exact hAlike.elim
  · exact hAlike.elim
  · exact ⟨hAlike.1, hBesideAfter hAlike.2⟩

theorem write (hBeside : Beside sub app dirty s t) (hServes : Serves t sub app regs')
    (hPlace : checkPlace r = .ok ()) (hWidth : Block.checkWidth t.hardware v = .ok ()) :
    ∃ t', effect (setReg app r v) t = (.ok ⟨⟩, t') ∧ Beside sub app (r :: dirty) s t' ∧
      Serves t' sub app (put r (some v) regs') := by
  have hEffect : ∀ events, effect (setReg app r v) (withEvents events t) =
      (.ok ⟨⟩, withEvents events (Linked.withRegs app (put r (some v) regs') t)) := by
    intro events
    have hRegs : get? app (withEvents events t).registers = some regs' := hServes.registers
    have hFits : Block.checkWidth (withEvents events t).hardware v = .ok () := hWidth
    rw [Linked.effect_setReg hRegs, set_eq, hPlace, hFits]
    rfl
  have hLinked := hBeside.linked.mono (clean_weaker (subset_cons_self r dirty))
  have hHold := hLinked.hold (r := r) hPlace (fun hr => hr mem_cons_self)
    (fun p hp => absurd hp not_mem_nil) v
  have hOwn : Block.checkWidth s.hardware v = .ok () := by
    rw [← hLinked.hardware_eq]
    exact hWidth
  rw [hOwn, hEffect] at hHold
  rcases hHold with ⟨t', ⟨⟩, hHeld⟩
  refine ⟨_, hEffect t.events, ⟨?_, hBeside.told⟩, ⟨hServes.subroutine, ?_⟩⟩
  · exact hHeld.mono ⟨fun _ hr => hr, fun _ hr => hr, fun p hp => absurd hp not_mem_nil⟩
  · exact get?_put_self app _ _

end Beside

---- Instructions of the core

open Node Node.Linked
variable {os : List Operand} {op : Op} {P : Pairing}

def reads : Instr → List Reg
  | .op _ op operands _ => Flow.sourcesFrom (Draft.target? op) 0 operands
  | .note _ => []

def Leads (size : Nat) : Instr → Prop
  | .op _ op operands _ => ∀ fork ∈ forks? op operands, ∃ n : Nat, n ≤ size ∧ fork.2 = .imm n
  | .note _ => True

instance Leads.decidable (size : Nat) : ∀ i : Instr, Decidable (Leads size i)
  | .op _ op operands _ =>
    inferInstanceAs (Decidable (∀ fork ∈ forks? op operands, ∃ n : Nat, n ≤ size ∧ fork.2 = .imm n))
  | .note _ => isTrue trivial

-- A line of a subroutine, or the one behind them, and the start of its block.
def Meets (bs : List (List Instr)) (size : Nat) (line line' : Int) : Prop :=
  ∃ n : Nat, n ≤ size ∧ line = (n : Int) ∧ line' = (startOf bs n : Int)

---- Operands

-- Operands in the same slots, whatever they are.
def anyhow : Pairing := ⟨fun _ _ => True, fun _ _ => True⟩

theorem match_of_fit (hReads : ∀ o, P.reads o o) (hPlaces : ∀ i, P.places i i)
    (hFit : slot.fit? o = some o) (written : Bool) : Match P written slot o o := by
  cases slot with
  | reg =>
    rcases Slot.fit?_reg hFit with ⟨r, rfl⟩
    cases written with
    | true => exact .written
    | false => exact .read (hReads _)
  | byte | angle => exact .number rfl rfl fun hWord => by cases hWord
  | word =>
    cases o with
    | imm _ | shown _ _ => exact .number rfl rfl fun _ => rfl
    | _ => cases hFit
  | addr =>
    cases o with
    | addr _ => exact .addr
    | _ => cases hFit
  | entry =>
    cases o with
    | entry _ _ => exact .entry (hPlaces _)
    | _ => cases hFit
  | slice =>
    cases o with
    | slice _ _ _ => exact .slice (hPlaces _) (hPlaces _)
    | _ => cases hFit

-- Operands that fit their slots match themselves if everything goes with itself.
theorem matchFrom_of_fits (hReads : ∀ o, P.reads o o) (hPlaces : ∀ i, P.places i i)
    (hFits : Slot.fitAll? slots os = some os) (target : Option Nat) (place : Nat) :
    MatchFrom P target place slots os os := by
  induction slots generalizing os place with
  | nil =>
    cases Slot.fitAll?_nil hFits
    exact .nil
  | cons slot slots ih =>
    rcases Slot.fitAll?_cons hFits with ⟨o, rest, rfl, hFirst, hRest⟩
    exact .cons (match_of_fit hReads hPlaces hFirst _) (ih hRest _)

theorem alike_sound_registers (sub : Nat) (app : Int) (dirty : List Reg) :
    (Flow.alike (clean dirty)).Sound sub app (clean dirty) ofRegister ofRegister := by
  refine ⟨fun {o _} hAlike => ?_, Flow.alike_sound.places⟩
  cases hAlike with
  | same hNamed =>
    cases o with
    | reg r => exact sim_getReg (hNamed r rfl)
    | _ => exact SimTo.throw rfl
  | held _ _ hHeld => exact absurd hHeld not_mem_nil

theorem outputs_branch (hForks : forks? op os = some fork) : outputs op os = [] := by
  unfold forks? at hForks
  split at hForks <;> first | rfl | cases hForks

section Instructions
variable {sub : Nat} {app : Int} {dirty : List Reg}

theorem sim_perform (family : Family)
    (hMatch : MatchFrom (Flow.alike (clean dirty)) (Draft.target? op) 0 op.slots os os)
    (hStraight : forks? op os = none) :
    SimTo (Linked sub app (clean dirty))
      (Linked sub app (clean (dirty.filter fun r => r ∉ outputs op os))) Eq
      (perform sub family op os) (perform sub family op os) := by
  by_cases hReturn : op = .retReg
  · subst hReturn
    rcases hMatch with _ | @⟨_, _, _, q, _, _, _, hValue, ⟨⟩⟩
    have hKept : Sim (Linked sub app (clean dirty)) Eq
        (perform sub family .retReg [q]) (perform sub family .retReg [q]) := by
      cases q with
      | reg r =>
        have hNamed : (clean dirty).named r := by
          cases hValue.toRead with
          | same hNamed => exact hNamed r rfl
          | held _ _ hHeld => exact absurd hHeld not_mem_nil
        exact sim_performReturn _ _ _ _ hNamed
      | _ =>
        exact sim_forApp (SimTo.bind_eq
          ((alike_sound_registers sub app dirty).sim_demandValue hValue.toRead) fun _ =>
            (sim_blind (Blind.emit _)).done)
    have hNothing : outputs .retReg [q] = [] := rfl
    rw [hNothing]
    exact hKept.relax fun s t hLinked => hLinked.mono (clean_weaker fun r hr => by simpa using hr)
  · refine ((alike_sound_registers sub app dirty).sim_performWith family family hMatch hStraight
      hReturn fun _ _ p hp => absurd hp not_mem_nil).relax fun s t hLinked => ?_
    refine hLinked.mono ⟨fun r hr => ?_, fun _ hr => hr, fun _ hp => hp⟩
    by_cases hWritten : r ∈ outputs op os
    · exact .inr hWritten
    · exact .inl fun hDirty => hr (mem_filter.mpr ⟨hDirty, by simpa using hWritten⟩)

-- An instruction and its relocated form have the same effect and lead to a line and to the start of
-- its block.
theorem sim_kept {bs : List (List Instr)} {family : Family} {line : Option HostLine} {size n : Nat}
    (hFits : Slot.fitAll? op.slots os = some os) (hLeads : Leads size (.op family op os line))
    (hReads : ∀ r ∈ reads (.op family op os line), r ∉ dirty) (hInside : n < size)
    (hNext : startOf bs (n + 1) = startOf bs n + 1) :
    SimTo (Linked sub app (clean dirty))
      (Linked sub app (clean (dirty.filter fun r => r ∉ outputs op os)))
      (fun out out' => Meets bs size out.1 out'.1) (execute sub n (.op family op os line))
      (execute sub (startOf bs n) (relocated bs (.op family op os line))) := by
  have hAnyhow : MatchFrom anyhow (Draft.target? op) 0 op.slots os os :=
    matchFrom_of_fits (fun _ => trivial) (fun _ => trivial) hFits _ _
  have hMatch := Flow.matchFrom_alike (V := clean dirty) hAnyhow hReads
  have hOnward : ((startOf bs n : Nat) : Int) + 1 = (startOf bs (n + 1) : Nat) := by
    rw [hNext]
    rfl
  cases hForks : forks? op os with
  | none =>
    have hStraight := hMatch.straight hForks
    have hNone : target? (.op family op os line) = none := by
      cases op with
      | jmp | bez | bnz | beq | bne | blt | bge => exact absurd hStraight (by decide)
      | _ => rfl
    rw [relocated_plain hNone]
    simp only [execute, hForks]
    exact (sim_perform family hMatch hForks).answer fun _ _ _ => ⟨n + 1, hInside, rfl, hOnward⟩
  | some fork =>
    rcases fork with ⟨compared, target⟩
    rcases hLeads _ hForks with ⟨m, hBound, rfl⟩
    have hMoved : ∃ os', relocated bs (.op family op os line) = .op family op os' line ∧
        forks? op os' = some (compared, .imm (startOf bs m)) := by
      unfold forks? at hForks
      split at hForks <;> cases hForks <;> exact ⟨_, rfl, rfl⟩
    rcases hMoved with ⟨_, hRelocated, hForks'⟩
    rcases hMatch.forks hForks with ⟨compared', target', hSame, hCompared, _, _⟩
    rw [hForks] at hSame
    cases hSame
    rw [hRelocated, outputs_branch hForks]
    simp only [execute, hForks, hForks']
    refine SimTo.relax (SimTo.answer
      ((alike_sound_registers sub app dirty).sim_takenWith hCompared op) ?_)
      fun s t hLinked => hLinked.mono (clean_weaker fun r hr => by simpa using hr)
    rintro taken _ rfl
    cases taken with
    | false => exact ⟨n + 1, hInside, rfl, hOnward⟩
    | true => exact ⟨m, hBound, rfl, rfl⟩

end Instructions

---- Blocks

open Node Machine
variable {i j : Instr} {behind js rest : List Instr} {qs rs : List Reg} {t : Node}
  {line : Option HostLine} {regs : Registers}

variable {sub : Nat} {app : Int}
variable {code : List Instr}

def scratch (i : Instr) (block : List Instr) : List Reg :=
  (block.flatMap Instr.writes).filter fun r => r ∉ i.writes

def soiled (i : Instr) (block : List Instr) (dirty : List Reg) : List Reg :=
  scratch i block ++ dirty.filter fun r => r ∉ i.writes

def rows (start count : Nat) : List Int := (List.range' start count).map fun n : Nat => (n : Int)

---- Circuits

theorem pulse?_cases (hPulse : pulse? j = some qs) :
    (∃ op q n line, op ∈ [Op.rotX, .rotY, .rotZ] ∧ 0 ≤ n ∧ n < 32 ∧ qs = [q] ∧
      j = Circuit.rot line op q n) ∨
    ∃ op e c n line, op ∈ [Op.crotX, .crotY] ∧ 0 ≤ n ∧ n < 32 ∧ qs = [e, c] ∧
      j = Circuit.crot line op e c n := by
  unfold pulse? at hPulse
  split at hPulse
  · split at hPulse
    · rename_i hGate
      rcases hGate with ⟨hOp, hLow, hHigh, rfl⟩
      cases hPulse
      exact .inl ⟨_, _, _, _, hOp, hLow, hHigh, rfl, rfl⟩
    · cases hPulse
  · split at hPulse
    · rename_i hGate
      rcases hGate with ⟨hOp, hLow, hHigh, rfl⟩
      cases hPulse
      exact .inr ⟨_, _, _, _, _, hOp, hLow, hHigh, rfl, rfl⟩
    · cases hPulse
  · cases hPulse

theorem cause?_pulse (hLow : 0 ≤ n) (hHigh : n < 32) :
    cause? (angleOf (.imm n) (.imm Circuit.exponent)) = none := by
  have hSmall : ¬ Angle.tooLarge ≤ n.natAbs := by
    have hBound : 32 < Angle.tooLarge := by decide +kernel
    omega
  rw [angleOf_imm (by decide) (by decide), if_neg hSmall]
  rfl

theorem emits_pulse (hPulse : pulse? j = some qs) : Emits qs none j := by
  rcases pulse?_cases hPulse with
    ⟨op, q, n, line, hOp, hLow, hHigh, rfl, rfl⟩ | ⟨op, e, c, n, line, hOp, hLow, hHigh, rfl, rfl⟩
  · rw [← cause?_pulse hLow hHigh]
    exact emits_rotation hOp .nv q _ _ line
  · rw [← cause?_pulse hLow hHigh]
    exact emits_controlled hOp .nv e c _ _ line

theorem pulse?_plain (hPulse : pulse? j = some qs) : target? j = none ∧ j.writes = [] := by
  rcases pulse?_cases hPulse with
    ⟨op, q, n, line, hOp, _, _, _, rfl⟩ | ⟨op, e, c, n, line, hOp, _, _, _, rfl⟩
  · cases op <;> first | exact ⟨rfl, rfl⟩ | exact absurd hOp (by decide)
  · cases op <;> first | exact ⟨rfl, rfl⟩ | exact absurd hOp (by decide)

namespace Plays

theorem pulse (hPlays : Plays rs js) (hMember : j ∈ js) : ∃ qs, pulse? j = some qs := by
  rcases hPlays.pulses with ⟨_, hPulses, _⟩
  have hMapped : pulse? j ∈ js.map pulse? := mem_map_of_mem hMember
  rw [hPulses] at hMapped
  rcases mem_map.mp hMapped with ⟨qs, _, hSame⟩
  exact ⟨qs, hSame.symm⟩

theorem map_relocated (hPlays : Plays rs js) (bs : List (List Instr)) :
    js.map (relocated bs) = js := by
  have hEach : ∀ j ∈ js, relocated bs j = j := by
    intro j hj
    rcases hPlays.pulse hj with ⟨_, hPulse⟩
    exact relocated_plain (pulse?_plain hPulse).1
  rw [map_congr_left hEach, map_id']

theorem writes (hPlays : Plays rs js) : js.flatMap Instr.writes = [] := by
  refine flatMap_eq_nil_iff.mpr fun j hj => ?_
  rcases hPlays.pulse hj with ⟨_, hPulse⟩
  exact (pulse?_plain hPulse).2

end Plays

-- From a line on a node goes through some lines, or is refused for an undefined qubit or for another
-- cause.
inductive Fares (code : List Instr) (sub : Nat) (met : Prop) (cause : Option Fault)
    (start count : Nat) (t : Node) : Node → Prop
  | through {visits : List (Int × Node)} {t' : Node} : met → cause = none →
      Path (program sub code.toArray) start t visits (start + count : Nat) t' →
      visits.map Prod.fst = rows start count → Fares code sub met cause start count t t'
  | stops {visits : List (Int × Node)} {t' : Node} : ¬ met →
      Run (program sub code.toArray) start t visits (.error .unmet) t' →
      Fares code sub met cause start count t t'
  | refused {visits : List (Int × Node)} {e f : Fault} {t' : Node} : met → f ∈ cause →
      e.category = f.category → Run (program sub code.toArray) start t visits (.error e) t' →
      Fares code sub met cause start count t t'

-- One line is gone through first.
theorem Fares.after {met : Prop} {start count : Nat}
    (hFares : Fares code sub met cause (start + 1) count t t')
    (hFirst : Path (program sub code.toArray) start s visits (start + 1 : Nat) t)
    (hRow : visits.map Prod.fst = [(start : Int)]) :
    Fares code sub met cause start (count + 1) s t' := by
  cases hFares with
  | through hDefined hCause hPath hRows =>
    rw [Nat.add_right_comm] at hPath
    refine .through hDefined hCause (hFirst.append hPath) ?_
    rw [map_append, hRow, hRows]
    rfl
  | stops hUndefined hRun => exact .stops hUndefined (hFirst.run hRun)
  | refused hDefined hCause hCategory hRun =>
    exact .refused hDefined hCause hCategory (hFirst.run hRun)

-- A gate on defined qubits is reported, and the next line follows.
theorem emits_fares (hEmits : Emits qs cause j) (hCode : code = behind ++ j :: rest)
    (hServes : Serves t sub app regs) (hOff : t.logger = .off)
    (hPlaces : ∀ r ∈ qs, checkPlace r = .ok ()) :
    ∃ gates, (∀ e ∈ gates, e.isGate = true) ∧
      Fares code sub (∀ r ∈ qs, (regs.value r).isSome) cause behind.length 1 t
        (withEvents (t.events ++ gates) t) := by
  have hLine : program sub code.toArray behind.length = some (step sub behind.length j) :=
    program_split hCode rfl
  have hSame : withEvents (t.events ++ []) t = t := by
    rw [append_nil]
    rfl
  by_cases hSome : ∀ r ∈ qs, (regs.value r).isSome
  · cases cause with
    | none =>
      rcases hEmits.emits hServes behind.length hPlaces hSome rfl with ⟨event, hGate, hExecute⟩
      exact ⟨[event], by simpa using hGate,
        .through hSome rfl (.next hLine (effect_step_ok hExecute hOff) .here) rfl⟩
    | some f =>
      refine ⟨[], by simp, .refused hSome rfl rfl (.fail hLine ?_)⟩
      rw [hSame]
      exact effect_step_error (hEmits.refused hServes _ hPlaces hSome f rfl)
  · refine ⟨[], by simp, .stops hSome (.fail hLine ?_)⟩
    rw [hSame]
    exact effect_step_error (hEmits.undefined hServes _ hPlaces (by simpa using hSome))

-- A circuit is refused at the first undefined qubit.
theorem circuit_fares {qss : List (List Reg)}
    (hEmits : Forall₂ (fun qs j => Emits qs none j) qss js)
    (hCode : code = behind ++ (js ++ rest)) (hServes : Serves t sub app regs)
    (hOff : t.logger = .off) (hPlaces : ∀ r ∈ qss.flatten, checkPlace r = .ok ()) :
    ∃ gates, (∀ e ∈ gates, e.isGate = true) ∧
      Fares code sub (∀ r ∈ qss.flatten, (regs.value r).isSome) none behind.length js.length t
        (withEvents (t.events ++ gates) t) := by
  induction hEmits generalizing behind t with
  | nil => exact ⟨[], by simp, .through (by simp) rfl (by rw [append_nil]; exact .here) rfl⟩
  | @cons qs j qss js hFirst _ ih =>
    rw [flatten_cons] at hPlaces ⊢
    rw [forall_mem_append] at hPlaces ⊢
    rcases emits_fares hFirst hCode hServes hOff hPlaces.1 with ⟨gates, hGates, hFares⟩
    cases hFares with
    | stops hNone hRun => exact ⟨gates, hGates, .stops (fun hAll => hNone hAll.1) hRun⟩
    | through hSome _ hPath hRows =>
      have hBehind : code = (behind ++ [j]) ++ (js ++ rest) := by
        rw [hCode]
        simp
      rcases ih hBehind (t := withEvents (t.events ++ gates) t)
        ⟨hServes.subroutine, hServes.registers⟩ hOff hPlaces.2 with ⟨more, hMore, hRest⟩
      refine ⟨gates ++ more, forall_mem_append.mpr ⟨hGates, hMore⟩, ?_⟩
      rw [and_iff_right hSome, ← append_assoc]
      rw [length_append] at hRest
      exact hRest.after hPath hRows
    | refused _ hCause _ _ => cases hCause

theorem Plays.emits (hPlays : Plays rs js) :
    ∃ qss, Forall₂ (fun qs j => Emits qs none j) qss js ∧ ∀ r, r ∈ qss.flatten ↔ r ∈ rs := by
  rcases hPlays.pulses with ⟨qss, hPulses, hRegs⟩
  have hEach : Forall₂ (fun j qs => pulse? j = some qs) js qss := by
    rw [← forall₂_eq_eq_eq, forall₂_map_left_iff, forall₂_map_right_iff] at hPulses
    exact hPulses
  exact ⟨qss, hEach.flip.imp fun _ _ => emits_pulse, hRegs⟩

theorem Plays.fares (hPlays : Plays rs js) (hCode : code = behind ++ (js ++ rest))
    (hBeside : Beside sub app dirty s t) (hServes : Serves t sub app regs)
    (hPlaces : ∀ r ∈ rs, checkPlace r = .ok ()) :
    ∃ t', Beside sub app dirty s t' ∧
      Fares code sub (∀ r ∈ rs, (regs.value r).isSome) none behind.length js.length t t' := by
  rcases hPlays.emits with ⟨qss, hEmits, hRegs⟩
  simp only [← hRegs] at hPlaces ⊢
  rcases circuit_fares hEmits hCode hServes hBeside.off.2 hPlaces with ⟨gates, hGates, hFares⟩
  exact ⟨_, hBeside.report_right hGates, hFares⟩

---- Instructions and blocks

-- A block follows a step of an instruction: it goes on to the block for the same line, in a state
-- beside, or is refused for a cause of the same category.
inductive Follows (is : List Instr) (bs : List (List Instr)) (code : List Instr) (sub : Nat)
    (app : Int) (dirty : List Reg) (n : Nat) (i : Instr) (block : List Instr)
    (t : Node) : Except Fault Int × Node → Prop
  | goesOn {line line' : Int} {visits : List (Int × Node)} {s' t' : Node} :
      Meets bs is.length line line' →
      Path (program sub code.toArray) (startOf bs n) t visits line' t' →
      visits.map Prod.fst = rows (startOf bs n) block.length →
      Beside sub app (soiled i block dirty) s' t' →
      Follows is bs code sub app dirty n i block t (.ok line, s')
  | fails {visits : List (Int × Node)} {e e' : Fault} {s' t' : Node} :
      Run (program sub code.toArray) (startOf bs n) t visits (.error e') t' →
      e'.category = e.category → Beside sub app (scratch i block ++ dirty) s' t' →
      Follows is bs code sub app dirty n i block t (.error e, s')

section Blocks
variable {is : List Instr} {bs : List (List Instr)}
variable {dirty : List Reg} {n : Nat} {s : Node}

theorem scratch_kept (i : Instr) : scratch i [i] = [] := by
  refine filter_eq_nil_iff.mpr fun r hr => ?_
  simpa using hr

-- A block follows a gate if it is refused where the gate is.
theorem follows_gate (hEmits : Emits rs cause i) (hWrites : i.writes = []) (hInside : n < is.length)
    (hServes : Serves s sub app regs) (hPlaces : ∀ r ∈ rs, checkPlace r = .ok ())
    (hNext : startOf bs (n + 1) = startOf bs n + block.length)
    (hBeside : Beside sub app (scratch i block ++ dirty) s t')
    (hFares : Fares code sub (∀ r ∈ rs, (regs.value r).isSome) cause (startOf bs n) block.length t
      t') : Follows is bs code sub app dirty n i block t (effect (step sub n i) s) := by
  cases hFares with
  | through hSome hCause hPath hRows =>
    rcases hEmits.emits hServes n hPlaces hSome hCause with ⟨event, hGate, hEffect⟩
    have hSoiled : soiled i block dirty = scratch i block ++ dirty := by simp [soiled, hWrites]
    rw [effect_step_ok hEffect hBeside.off.1]
    rw [← hNext] at hPath
    refine .goesOn ⟨n + 1, hInside, rfl, rfl⟩ hPath hRows ?_
    rw [hSoiled]
    exact ⟨⟨congrArg (withEvents _) hBeside.linked.visible, hBeside.linked.hosted,
      hBeside.linked.hidden⟩, hBeside.told.trans (told_withEvents (by simpa using hGate)).symm⟩
  | stops hNone hRun =>
    rw [effect_step_error (hEmits.undefined hServes n hPlaces (by simpa using hNone))]
    exact .fails hRun rfl hBeside
  | refused hSome hCause hCategory hRun =>
    rw [effect_step_error (hEmits.refused hServes n hPlaces hSome _ hCause)]
    exact .fails hRun hCategory hBeside

theorem Fares.congr {met : Prop} {start count : Nat} (hSame : SameCheck c c')
    (hFares : Fares code sub met (cause? c') start count t t') :
    Fares code sub met (cause? c) start count t t' := by
  cases hSame with
  | both => exact hFares
  | neither hCategory =>
    cases hFares with
    | through _ hCause _ _ => cases hCause
    | stops hUndefined hRun => exact .stops hUndefined hRun
    | refused hDefined hCause hSame hRun =>
      cases hCause
      exact .refused hDefined rfl (hSame.trans hCategory) hRun

-- What a gate without an angle reads, writes and does.
structure Touches (rs : List Reg) (i : Instr) : Prop where
  emits : Emits rs none i
  reads : reads i = rs
  writes : i.writes = []
  registers : rs = i.operands.filterMap Operand.reg?
  plain : target? i = none

theorem touches_of_eq_some (hTouches : touches? i = some rs) : Touches rs i := by
  unfold touches? at hTouches
  split at hTouches
  · rename_i op q line
    split at hTouches
    · rename_i hGate
      cases hTouches
      have hEmits := emits_single hGate .vanilla q line
      cases op <;> first | exact ⟨hEmits, rfl, rfl, rfl, rfl⟩ | exact absurd hGate (by decide)
    · cases hTouches
  · rename_i op a b line
    split at hTouches
    · rename_i hGate
      cases hTouches
      have hEmits := emits_double hGate .vanilla a b line
      cases op <;> first | exact ⟨hEmits, rfl, rfl, rfl, rfl⟩ | exact absurd hGate (by decide)
    · cases hTouches
  · cases hTouches

theorem write_path (hCode : code = behind ++ (.op .core .set [.reg e, .imm v] line :: rest))
    (hPlace : checkPlace e = .ok ()) (hWidth : ∀ hardware, Block.checkWidth hardware v = .ok ())
    (hBeside : Beside sub app dirty s t) (hServes : Serves t sub app regs) :
    ∃ t', Path (program sub code.toArray) behind.length t [((behind.length : Int), t)]
        (behind.length + 1 : Nat) t' ∧
      Beside sub app (e :: dirty) s t' ∧ Serves t' sub app (put e (some v) regs) := by
  rcases hBeside.write hServes hPlace (hWidth _) with ⟨t', hSetReg, hBeside', hServes'⟩
  have hExecute := execute_set (behind.length : Int) (p := (e, v)) (n := .imm v) line rfl
    hServes.subroutine
  rw [hSetReg] at hExecute
  exact ⟨t', .next (program_split hCode rfl) (effect_step_ok hExecute hBeside'.off.2) .here,
    hBeside', hServes'⟩

theorem checkPlace_qubit : ∀ e ∈ Reg.ofBank .q, checkPlace e = .ok () := by decide

section Lines
variable (hInside : n < is.length) (hLength : behind.length = startOf bs n)
  (hBeside : Beside sub app dirty s t)

include hInside hLength hBeside
theorem follows_kept {family : Family} {op : Op} {os : List Operand}
    (hFits : Slot.fitAll? op.slots os = some os) (hLeads : Leads is.length (.op family op os line))
    (hReads : ∀ r ∈ reads (.op family op os line), r ∉ dirty)
    (hNext : startOf bs (n + 1) = startOf bs n + 1)
    (hCode : code = behind ++ (relocated bs (.op family op os line) :: rest)) :
    Follows is bs code sub app dirty n (.op family op os line) [.op family op os line] t
      (effect (step sub n (.op family op os line)) s) := by
  have hLine : program sub code.toArray (startOf bs n) =
      some (step sub (startOf bs n) (relocated bs (.op family op os line))) :=
    program_split hCode hLength
  have hAlike := Beside.sim (sim_kept hFits hLeads hReads hInside hNext)
    (Deaf.execute sub (startOf bs n) _) s t hBeside
  rcases hLeft : effect (execute sub n (.op family op os line)) s with ⟨e | ⟨next, output⟩, s'⟩ <;>
    rcases hRight : effect (execute sub (startOf bs n) (relocated bs (.op family op os line))) t with
      ⟨e' | ⟨next', output'⟩, t'⟩ <;>
    rw [hLeft, hRight] at hAlike
  · rw [effect_step_error hLeft]
    refine .fails (.fail hLine (effect_step_error hRight)) hAlike.1 ?_
    rw [scratch_kept]
    exact hAlike.2
  · exact hAlike.elim
  · exact hAlike.elim
  · rw [effect_step_ok hLeft hAlike.2.off.1]
    refine .goesOn hAlike.1 (.next hLine (effect_step_ok hRight hAlike.2.off.2) .here) rfl ?_
    rw [soiled, scratch_kept, writes_eq]
    exact hAlike.2

-- A rotation and its block are refused for the same reasons.
theorem follows_turned (hGate : op ∈ [Op.rotX, .rotY, .rotZ])
    (hSame : SameCheck (angleOf x d) (angleOf x' d')) (hPlace : checkPlace q = .ok ())
    (hClean : q ∉ dirty) (hNext : startOf bs (n + 1) = startOf bs n + 1)
    (hCode : code = behind ++ (.op .nv op [.reg q, x', d'] line :: rest)) :
    Follows is bs code sub app dirty n (.op .vanilla op [.reg q, x, d] line)
      [.op .nv op [.reg q, x', d'] line] t
      (effect (step sub n (.op .vanilla op [.reg q, x, d] line)) s) := by
  rcases hBeside.serves with ⟨regs, regs', hServes, hServes', hAgree⟩
  have hPlaces : ∀ r ∈ [q], checkPlace r = .ok () := by simpa using hPlace
  have hWrites : ∀ family y z, Instr.writes (.op family op [.reg q, y, z] line) = [] := by
    intro family y z
    cases op <;> first | rfl | exact absurd hGate (by decide)
  have hScratch :
      scratch (.op .vanilla op [.reg q, x, d] line) [.op .nv op [.reg q, x', d'] line] = [] := by
    simp [scratch, hWrites]
  rcases emits_fares (emits_rotation hGate .nv q x' d' line) hCode hServes' hBeside.off.2 hPlaces
    with ⟨gates, hGates, hFares⟩
  simp only [mem_singleton, forall_eq, hAgree q hClean, hLength] at hFares
  refine follows_gate (emits_rotation hGate .vanilla q x d line) (hWrites _ _ _) hInside hServes
    hPlaces hNext ?_ (by simpa using hFares.congr hSame)
  rw [hScratch]
  exact hBeside.report_right hGates

theorem follows_played (hTouches : touches? i = some rs) (hPlays : Plays rs js)
    (hPlaces : ∀ r ∈ rs, checkPlace r = .ok ()) (hReads : ∀ r ∈ reads i, r ∉ dirty)
    (hNext : startOf bs (n + 1) = startOf bs n + js.length)
    (hCode : code = behind ++ (js.map (relocated bs) ++ rest)) :
    Follows is bs code sub app dirty n i js t (effect (step sub n i) s) := by
  have hGate := touches_of_eq_some hTouches
  rcases hBeside.serves with ⟨regs, regs', hServes, hServes', hAgree⟩
  have hScratch : scratch i js = [] := by simp [scratch, hPlays.writes]
  rw [hPlays.map_relocated] at hCode
  rcases hPlays.fares hCode hBeside hServes' hPlaces with ⟨t', hBeside', hFares⟩
  have hValues : (∀ r ∈ rs, (regs'.value r).isSome) ↔ ∀ r ∈ rs, (regs.value r).isSome :=
    forall₂_congr fun r hr => by rw [hAgree r (hReads r (hGate.reads ▸ hr))]
  rw [hValues, hLength] at hFares
  exact follows_gate hGate.emits hGate.writes hInside hServes hPlaces hNext (hScratch ▸ hBeside')
    hFares

theorem follows_exchanged (hTouches : touches? i = some rs) (hQubit : e ∈ Reg.ofBank .q)
    (hOther : e ∉ rs) (hPlays : Plays (e :: rs) js) (hPlaces : ∀ r ∈ rs, checkPlace r = .ok ())
    (hReads : ∀ r ∈ reads i, r ∉ dirty) (hNext : startOf bs (n + 1) = startOf bs n + (js.length + 1))
    (hCode : code = behind ++
      ((.op .core .set [.reg e, .imm 0] line :: js).map (relocated bs) ++ rest)) :
    Follows is bs code sub app dirty n i (.op .core .set [.reg e, .imm 0] line :: js) t
      (effect (step sub n i) s) := by
  have hGate := touches_of_eq_some hTouches
  rcases hBeside.serves with ⟨regs, regs', hServes, hServes', hAgree⟩
  have hScratch : scratch i (.op .core .set [.reg e, .imm 0] line :: js) = [e] := by
    simp only [scratch, hGate.writes, flatMap_cons, hPlays.writes]
    rfl
  have hSet : relocated bs (.op .core .set [.reg e, .imm 0] line) =
      .op .core .set [.reg e, .imm 0] line := rfl
  rw [map_cons, hPlays.map_relocated, hSet] at hCode
  rcases write_path hCode (checkPlace_qubit e hQubit) (by decide) hBeside hServes' with
    ⟨_, hFirst, hBeside₁, hServes₁⟩
  -- From here on the circuit runs as it would without the scratch register.
  have hCode₁ : code = (behind ++ [Instr.op .core .set [.reg e, .imm 0] line]) ++ (js ++ rest) := by
    rw [hCode]
    simp
  rcases hPlays.fares hCode₁ hBeside₁ hServes₁
    (forall_mem_cons.mpr ⟨checkPlace_qubit e hQubit, hPlaces⟩) with ⟨t', hBeside', hFares⟩
  have hValues : (∀ r ∈ e :: rs, (value (put e (some 0) regs') r).isSome) ↔
      ∀ r ∈ rs, (regs.value r).isSome := by
    rw [forall_mem_cons, value_put_self, Option.isSome_some, eq_self, true_and]
    refine forall₂_congr fun r hr => ?_
    have hNot : r ≠ e := fun hSame => hOther (hSame ▸ hr)
    rw [value_put_of_ne hNot, hAgree r (hReads r (hGate.reads ▸ hr))]
  rw [hValues, length_append] at hFares
  have hWhole := hFares.after hFirst rfl
  rw [hLength] at hWhole
  exact follows_gate hGate.emits hGate.writes hInside hServes hPlaces hNext (hScratch ▸ hBeside')
    hWhole

end Lines

theorem checkPlace_inRange (hRange : r.InRange) : checkPlace r = .ok () := by
  have hBank : (Reg.perBank : Int) = 16 := rfl
  have hCheck : (decide (0 ≤ r.index) && decide (r.index < Reg.perBank)) = true := by
    have hLow := hRange.1
    have hHigh := hRange.2
    simp only [Bool.and_eq_true, decide_eq_true_eq]
    omega
  unfold checkPlace demand
  rw [hCheck]
  rfl

theorem legal_places (hLegal : i.Legal f) (hTouches : touches? i = some rs) :
    ∀ r ∈ rs, checkPlace r = .ok () := by
  rw [(touches_of_eq_some hTouches).registers]
  cases i with
  | op family op os line => exact fun r hr => checkPlace_inRange (hLegal.2.2 r hr)
  | note words => exact hLegal.elim

theorem follows_block (hLaid : Laid is bs code) (hAt : is[n]? = some i) (hLegal : i.Legal .vanilla)
    (hLeads : Leads is.length i) (hReads : ∀ r ∈ reads i, r ∉ dirty)
    (hBeside : Beside sub app dirty s t) :
    ∃ block, bs[n]? = some block ∧
      Follows is bs code sub app dirty n i block t (effect (step sub n i) s) := by
  rcases hLaid.split hAt with ⟨block, _, _, hBlock, hExpansion, hCode, hLength⟩
  have hNext : startOf bs (n + 1) = startOf bs n + block.length := by
    simp [startOf, take_add_one, hBlock]
  have hInside : n < is.length := (List.getElem?_eq_some_iff.mp hAt).1
  refine ⟨block, hBlock, ?_⟩
  cases hExpansion with
  | kept => exact follows_kept hInside hLength hBeside hLegal.2.1 hLeads hReads hNext hCode
  | @turned op q x d x' d' line hGate hSame =>
    have hTarget : target? (.op .nv op [.reg q, x', d'] line) = none := by
      cases op <;> first | rfl | exact absurd hGate (by decide)
    rw [map_singleton, relocated_plain hTarget] at hCode
    have hSource : q ∈ reads (.op .vanilla op [.reg q, x, d] line) := by
      cases op <;> first | exact mem_cons_self | exact absurd hGate (by decide)
    exact follows_turned hInside hLength hBeside hGate hSame
      (checkPlace_inRange (hLegal.2.2 q (by simp [Operand.reg?]))) (hReads q hSource) hNext hCode
  | played hTouches hPlays =>
    exact follows_played hInside hLength hBeside hTouches hPlays (legal_places hLegal hTouches) hReads
      hNext hCode
  | @exchanged op a b e js line hGate hQubit hOther hPlays =>
    have hTouches : touches? (.op .vanilla op [.reg a, .reg b] line) = some [a, b] := by
      rcases hGate with rfl | rfl <;> rfl
    exact follows_exchanged hInside hLength hBeside hTouches hQubit hOther hPlays
      (legal_places hLegal hTouches) hReads hNext hCode

end Blocks

end QuantumNode.Mapping
