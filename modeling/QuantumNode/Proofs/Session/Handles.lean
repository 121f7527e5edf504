import QuantumNode.Proofs.Session.Survival

/-
  The qubits of a session. One that is freed stays in use. On hardware on which only the first
  address can be measured, the qubit at this address has to go elsewhere before another one is
  measured. If the last pending commands create a qubit, then their address is changed, whichever
  qubit it is that they create. Otherwise, it is moved.
-/

open List

namespace QuantumNode.Session
variable {s : Session} {places : List (Nat × Int)} {q : Nat} {a b : Int}

-- A qubit in use has an address.
def Placed (s : Session) (q : Nat) (a : Int) : Prop :=
  ∃ info name, s.qubits[q]? = some ⟨.fixed a, true, info, name⟩

theorem Placed.cell (hPlaced : Placed s q a) :
    ∃ info name, s.qubits.getD q default = ⟨.fixed a, true, info, name⟩ := by
  rcases hPlaced with ⟨info, name, hCell⟩
  refine ⟨info, name, ?_⟩
  rw [Array.getD_eq_getD_getElem?, hCell]
  rfl

theorem Placed.unique (hPlaced : Placed s q a) (hOther : Placed s q b) : a = b := by
  rcases hPlaced with ⟨_, _, hCell⟩
  rcases hOther with ⟨_, _, hSame⟩
  rw [hCell] at hSame
  cases hSame
  rfl

theorem effect_qubitCell (q : Nat) (s : Session) :
    effect (qubitCell q) s = (.ok (s.qubits.getD q default), s) :=
  rfl

-- Qubits that are elsewhere stay where they are.
theorem effect_freeUpAmong_past (hPlaced : ∀ p ∈ places, Placed s p.1 p.2 ∧ p.2 ≠ a)
    (rest : List Nat) :
    effect (freeUpAmong a (places.map Prod.fst ++ rest)) s = effect (freeUpAmong a rest) s := by
  induction places with
  | nil => rfl
  | cons p others ih =>
    rcases hPlaced p mem_cons_self with ⟨hHere, hOther⟩
    rcases hHere.cell with ⟨info, name, hCell⟩
    rw [← ih fun p hp => hPlaced p (mem_cons_of_mem _ hp), map_cons, cons_append,
      freeUpAmong, effect_bind, effect_qubitCell, hCell]
    simp [hasAddress, hOther]

theorem effect_currentLine (hLines : s.tracker = none) : effect currentLine s = (.ok none, s) := by
  unfold currentLine
  rw [effect_get_bind, hLines]
  rfl

theorem effect_add (hLines : s.tracker = none) (items : List Item) :
    effect (add items) s = (.ok ⟨⟩, withPending (s.pending ++ items) s) := by
  have hSame : items.map (withLine none) = items := by
    refine (map_congr_left fun item _ => ?_).trans (map_id items)
    cases item <;> simp [withLine]
  rw [add, effect_bind, effect_currentLine hLines]
  simp only [hSame]
  rfl

theorem effect_emit (hLines : s.tracker = none) (op : Op) (operands : List Operand) :
    effect (emit op operands) s = (.ok ⟨⟩, withPending (s.pending ++ [command op operands]) s) :=
  effect_add hLines [command op operands]

def creation (a : Int) : List Item :=
  [command .set [.reg (qubitRegister 0), .int a],
    command .qalloc [.reg (qubitRegister 0)],
    command .init [.reg (qubitRegister 0)]]

theorem effect_isTaken (hPlaced : ∀ p ∈ places, Placed s p.1 p.2) (n : Int) :
    effect (isTaken n (places.map Prod.fst)) s = (.ok (decide (n ∈ places.map Prod.snd)), s) := by
  induction places with
  | nil => rfl
  | cons p others ih =>
    rcases (hPlaced p mem_cons_self).cell with ⟨info, name, hCell⟩
    by_cases hSame : p.2 = n <;> simp [isTaken, effect_bind, effect_qubitCell, hCell, hasAddress,
      hSame, Ne.symm, ih fun p hp => hPlaced p (mem_cons_of_mem _ hp)]

-- The first address that no qubit has is found within as many tries as there are qubits.
theorem effect_freeAddress (hActive : s.allocation.qubits = places.map Prod.fst)
    (hPlaced : ∀ p ∈ places, Placed s p.1 p.2) :
    ∃ b, effect freeAddress s = (.ok b, s) ∧ ∀ p ∈ places, p.2 ≠ b := by
  rcases Node.exists_first_unused (places.map Prod.snd) with ⟨n, hFound, hFree, hLess⟩
  have hFrom : ∀ tries k : Nat, k ≤ n → n ≤ k + tries →
      effect (freeAddressFrom (places.map Prod.fst) tries k) s = (.ok (n : Int), s) := by
    intro tries
    induction tries with
    | zero =>
      intro k hStart hTries
      rw [Nat.le_antisymm hTries hStart]
      rfl
    | succ tries ih =>
      intro k hStart hTries
      rcases Nat.eq_or_lt_of_le hStart with rfl | hLow
      · simp [freeAddressFrom, effect_bind, effect_isTaken hPlaced, hFree]
      · have hNext := ih (k + 1) hLow (by omega)
        simpa [freeAddressFrom, effect_bind, effect_isTaken hPlaced, hLess k hLow] using hNext
  have hBound : n < places.length + 1 := by simpa using mem_of_find?_eq_some hFound
  refine ⟨n, ?_, fun p hp hSame => hFree (hSame ▸ mem_map_of_mem hp)⟩
  rw [freeAddress, effect_get_bind, hActive]
  exact hFrom _ 0 (Nat.zero_le n) (by rw [length_map]; omega)

-- A qubit moves from one address to another one, which is created for it.
def moving (a b : Int) : List Item :=
  let q := Operand.reg (qubitRegister 0)
  let t := Operand.reg (qubitRegister 1)
  creation b ++ [command .set [q, .int a], command .set [t, .int b], command .mov [q, t],
    command .set [q, .int a], command .qfree [q]]

theorem effect_move (hLines : s.tracker = none) (hActive : s.allocation.qubits = places.map Prod.fst)
    (hPlaced : ∀ p ∈ places, Placed s p.1 p.2) (hFree : ∀ p ∈ places, p.2 ≠ b) (a : Int) :
    effect (move a b) s = (.ok ⟨⟩, withPending (s.pending ++ moving a b) s) := by
  have hUnused : effect (isTaken b (places.map Prod.fst)) s = (.ok false, s) := by
    rw [effect_isTaken hPlaced, decide_eq_false (by simpa using fun q hq => hFree (q, b) hq rfl)]
  simp [move, hActive, effect_bind, hUnused, allocateQubit, setAddress, effect_add, hLines,
    twoQubitGate, gate, effect_emit, withPending, moving, creation]

/-
  A qubit is at the first address. When this is freed, the qubit there gets a free address, and no
  other qubit gets another one. If the last pending commands do not create a qubit, then the one at
  the first address is moved. If they do, then the creation gets the free address instead, and the
  qubit that it creates follows exactly if it is the one at the first address.
-/
theorem creation_readdressed
    (hNv : s.hardware.nv = true)
    (hLines : s.tracker = none)
    (hActive : s.allocation.qubits = places.map Prod.fst)
    (hPlaced : ∀ p ∈ places, Placed s p.1 p.2)
    (hApart : places.Pairwise fun p p' => p.1 ≠ p'.1 ∧ p.2 ≠ p'.2)
    (hFirst : (q, 0) ∈ places) :
    ∃ b t, effect freeAddress s = (.ok b, s) ∧ (∀ p ∈ places, p.2 ≠ b) ∧
      effect (freeUp 0) s = (.ok ⟨⟩, t) ∧
      (∀ p ∈ places, Placed t p.1 (if p.1 = q then b else p.2)) ∧
      (readdress? s.pending b = none → t.pending = s.pending ++ moving 0 b) ∧
      ∀ before a, s.pending = before ++ creation a → t.pending = before ++ creation b ∧
        ∀ r, (r, a) ∈ places → (Placed t r b ↔ r = q) := by
  rcases effect_freeAddress hActive hPlaced with ⟨b, hFree, hUnused⟩
  rcases (hPlaced _ hFirst).cell with ⟨info, name, hCell⟩
  let t : Session := { s with
      pending := (readdress? s.pending b).getD (s.pending ++ moving 0 b)
      qubits := s.qubits.setIfInBounds q ⟨.fixed b, true, info, name⟩ }
  have hThere : ∀ p ∈ places, Placed t p.1 (if p.1 = q then b else p.2) := by
    intro p hp
    rcases hPlaced p hp with ⟨info', name', hFound⟩
    split
    · rename_i hSame
      refine ⟨info, name, ?_⟩
      rw [hSame] at hFound ⊢
      exact (Array.getElem?_setIfInBounds_self ..).trans
        (if_pos (Array.getElem?_eq_some_iff.mp hFound).1)
    · rename_i hOther
      exact ⟨info', name', (Array.getElem?_setIfInBounds_ne (Ne.symm hOther)).trans hFound⟩
  have hHere : ∀ rest, effect (freeUpAmong 0 (q :: rest)) s = effect (freeUpAmong 0 rest) t := by
    intro rest
    have hTake : effect takeAll s = (.ok s.pending, withPending [] s) := rfl
    have hAdd : ∀ items, effect (add items) (withPending [] s) = (.ok ⟨⟩, withPending items s) :=
      effect_add (s := withPending [] s) hLines
    simp only [freeUpAmong, effect_bind, effect_qubitCell, hCell, hasAddress, decide_true, effect_pure,
      if_true, hFree, hTake]
    cases hReaddress : readdress? s.pending b with
    | none =>
      have hMove := effect_move (s := withPending s.pending s) hLines hActive hPlaced hUnused 0
      simp only [hAdd, hMove, effect_bind, effect_qubitCell]
      simp [setQubit, withPending, hCell, hReaddress, t]
    | some items =>
      simp only [hAdd, effect_bind, effect_qubitCell]
      simp [setQubit, withPending, hCell, hReaddress, t]
  have hEffect : effect (freeUp 0) s = (.ok ⟨⟩, t) := by
    rcases append_of_mem hFirst with ⟨front, behind, rfl⟩
    rw [pairwise_append, pairwise_cons] at hApart
    have hFront : ∀ p ∈ front, Placed s p.1 p.2 ∧ p.2 ≠ 0 := fun p hp =>
      ⟨hPlaced p (mem_append_left _ hp), (hApart.2.2 p hp _ mem_cons_self).2⟩
    have hBehind : ∀ p ∈ behind, Placed t p.1 p.2 ∧ p.2 ≠ 0 := by
      intro p hp
      have hOther := hApart.2.1.1 p hp
      have hStays := hThere p (mem_append_right _ (mem_cons_of_mem _ hp))
      rw [if_neg hOther.1.symm] at hStays
      exact ⟨hStays, hOther.2.symm⟩
    have hSkip := effect_freeUpAmong_past hBehind []
    rw [append_nil] at hSkip
    rw [freeUp, effect_get_bind, if_pos hNv, hActive, map_append, map_cons,
      effect_freeUpAmong_past hFront, hHere]
    exact hSkip
  refine ⟨b, t, hFree, hUnused, hEffect, hThere, fun hNone => by simp [hNone, t],
    fun before a hPending => ⟨?_, fun r hr => ⟨fun hNew => ?_, ?_⟩⟩⟩
  · simp [hPending, readdress?, creation, command, Command.plain, t]
  · by_contra hOther
    have hOld := hThere _ hr
    rw [if_neg hOther] at hOld
    exact hUnused _ hr (hOld.unique hNew)
  · rintro rfl
    have hNew := hThere _ hFirst
    rwa [if_pos rfl] at hNew

-- A session on such hardware with three addresses.
def narrow : Session :=
  { (default : Session) with
    hardware := ⟨true, 1, 2⟩
    returnsArrays := true
    labels := .empty
    allocation := .empty }

def createTwo : SessionM Unit := do
  let _ ← createQubit true .nothing none
  let _ ← createQubit true .nothing none

def useTwo : Session := (effect (createTwo >>= fun _ => gate .x (.fixed 1)) narrow).2

-- The second of two qubits is not where it is created, unless something is done to it: then the
-- first one is moved.
theorem creation_readdressed_two :
    (∃ t, effect (freeUp 0) (effect createTwo narrow).2 = (.ok ⟨⟩, t) ∧
      t.pending = creation 0 ++ creation 2 ∧ Placed t 0 2 ∧ Placed t 1 1) ∧
    ∃ t, effect (freeUp 0) useTwo = (.ok ⟨⟩, t) ∧
      t.pending = useTwo.pending ++ moving 0 2 ∧ Placed t 0 2 ∧ Placed t 1 1 := by
  have hPlaced : ∀ s : Session, s.qubits = (effect createTwo narrow).2.qubits →
      ∀ p ∈ [(0, 0), (1, 1)], Placed s p.1 p.2 := by
    intro s hQubits p hp
    simp only [mem_cons, not_mem_nil, or_false] at hp
    rw [Placed, hQubits]
    rcases hp with rfl | rfl <;> exact ⟨.nothing, none, rfl⟩
  have hPending : (effect createTwo narrow).2.pending = creation 0 ++ creation 1 := rfl
  constructor
  · rcases creation_readdressed (q := 0) rfl rfl rfl (hPlaced _ rfl) (by simp) (by simp) with
      ⟨b, t, hFree, _, hEffect, hThere, _, hChanged⟩
    obtain rfl : 2 = b := Except.ok.inj (congrArg Prod.fst hFree)
    exact ⟨t, hEffect, (hChanged _ _ hPending).1, hThere (0, 0) (by simp), hThere (1, 1) (by simp)⟩
  · rcases creation_readdressed (s := useTwo) (q := 0) rfl rfl rfl (hPlaced _ rfl) (by simp)
      (by simp) with ⟨b, t, hFree, _, hEffect, hThere, hMoved, _⟩
    obtain rfl : 2 = b := Except.ok.inj (congrArg Prod.fst hFree)
    exact ⟨t, hEffect, hMoved rfl, hThere (0, 0) (by simp), hThere (1, 1) (by simp)⟩

def measureSecond : SessionM (Option Draft) := do
  createTwo
  let _ ← measure 1 .none false true .z none
  popDraft

def vacant : Node :=
  { (effect (Node.initApp 0 3) (Node.fresh "node" 0 .vanilla false true)).2 with
    subroutines := [(0, some 0)] }

-- It measures and frees an address that was never allocated.
theorem measured_unallocated :
    ∃ draft ∈ (effect measureSecond narrow).1.toOption, ∃ d ∈ draft,
      ∃ p ∈ (Assembly.assemble .full .vanilla d).toOption,
        (effect (Node.runFrom 0 p.instrs.toArray 100 0) vacant).1 =
          .error (.atLine 10 (.node (.notAllocatedToFree 1 0))) := by
  decide +kernel

-- A qubit that the node has freed is in use for the session.
theorem freed_qubit_in_use :
    let freed := effect (do
      let _ ← createQubit true .nothing none
      gate .qfree (.fixed 0)
      flush) (ready [])
    freed.1.isOk ∧ freed.2.allocation.qubits = [0] ∧
      freed.2.backend.bind (fun n => Table.get? 0 n.units) = some (List.replicate 5 none) := by
  decide +kernel

end QuantumNode.Session
