import QuantumNode.Proofs.Message.RoundTrip
import QuantumNode.Proofs.Node.Apart

/-
  The application that a subroutine runs for. A message has four bytes for an application, the
  header of a subroutine two, so it runs for the remainder modulo 65536.
-/

namespace QuantumNode.Node
open Activity Flavour
variable {r : Subroutine} {s t : Node} {line : Int} {i : Instr}

-- Where the lines of a subroutine are carried out, it is known by its number.
def Underway (r : Subroutine) (s : Node) : Activity × Node → Prop
  | (.run r', t) => r' = r ∧ t = s
  | (.lines sub _ _ _, t) => sub = s.nextSubroutine ∧ t.subroutines = (begun r s).subroutines
  | (.instr sub _ _, t) => sub = s.nextSubroutine ∧ t.subroutines = (begun r s).subroutines
  | _ => True

theorem subroutines_step (hStep : effect (step sub line i) s = (.ok out, t)) :
    t.subroutines = s.subroutines := by
  have hKept := (Within.step (i := i) (fun _ op os _ _ => Allows.all _ sub op os) line s rfl).1
  rwa [hStep] at hKept

theorem subroutines_fetch (hFetch : effect (fetch is line) s = (.ok i, t)) :
    t.subroutines = s.subroutines := by
  have hKept := ((Reach.lenient _ Scope.all).registers.fetch is line s rfl).1
  rwa [hFetch] at hKept

theorem underway_of_course (hCourse : Course (.run r, s) q) : Underway r s q := by
  induction hCourse with
  | refl => exact ⟨rfl, rfl⟩
  | tail _ hPart ih =>
    cases hPart with
    | run =>
      rcases ih with ⟨rfl, rfl⟩
      exact ⟨rfl, rfl⟩
    | instr _ hFetch => exact ⟨ih.1, (subroutines_fetch hFetch).trans ih.2⟩
    | lines _ hFetch hStep =>
      exact ⟨ih.1, (subroutines_step hStep).trans ((subroutines_fetch hFetch).trans ih.2)⟩
    | _ => trivial

-- Every instruction of a subroutine is carried out for the application of the subroutine.
/-
  A host registers an application and sends a subroutine for it. The node registers the application
  under its identifier and carries out every instruction of the subroutine for the application with
  the remainder modulo 65536, which is the same one exactly if the identifier fits into two bytes.
-/
theorem sender_modulo
    {f : Flavour}
    {r : Subroutine}
    {app : Int}
    (hOver : r.Over f)
    (hApp : r.appId = some app)
    (hLow : 0 ≤ app)
    (hHigh : app < 4294967296)
    (maxQubits : Int) :
    HostMessage.decode (HostMessage.initApp app maxQubits).encode =
        .ok (.initApp app (maxQubits % 256)) ∧
      ∃ payload r', r.encode = .ok payload ∧
        HostMessage.decode (HostMessage.subroutine payload).encode = .ok (.subroutine payload) ∧
        Subroutine.decode f payload = .ok r' ∧
        (∀ s : Node, s.flavour = f → effect (handle (.subroutine payload)) s = effect (run r') s ∧
          ∀ sub line i t, Course (.run r', s) (.instr sub line i, t) →
            effect (appOf sub) t = (.ok (app % 65536), t)) ∧
        (r'.appId = some app ↔ app < 65536) := by
  have hPow4 : (Nat.pow 256 4 : Int) = 4294967296 := rfl
  have hPow1 : (Nat.pow 256 1 : Int) = 256 := rfl
  have hPow2 : (Nat.pow 256 2 : Int) = 65536 := rfl
  constructor
  · rw [HostMessage.decode_encode]
    simp only [HostMessage.wrap, Layout.Field.wrap, Bool.false_eq_true, if_false,
      Bytes.toNat_ofInt, hPow4, hPow1]
    rw [Int.emod_eq_of_lt hLow hHigh]
  · rcases Subroutine.decode_encode_parts f r hOver with
      ⟨payload, v, _, _, hEncode, _, hApp', hDecode, _⟩
    cases hApp.symm.trans hApp'
    rw [Subroutine.headed, Bytes.toNat_ofInt 2 app, hPow2] at hDecode
    refine ⟨payload, _, hEncode, rfl, hDecode, fun s hFlavour => ⟨?_, ?_⟩, ?_⟩
    · simp [handle, effect_bind, hFlavour, hDecode]
    · intro sub line i t hCourse
      rcases underway_of_course hCourse with ⟨rfl, hSubs⟩
      simp only [appOf, effect_bind, effect_get, hSubs, begun, Table.get?_put_self]
      rfl
    · rw [Option.some.injEq]
      omega

-- A subroutine that sets a register, for an application with more than two bytes.
def distant : Subroutine := ⟨some ⟨0, 10⟩, some 65536, [], [core .set [register .r 0, .imm 5]]⟩

theorem distant_over : distant.Over .vanilla := by
  refine ⟨rfl, rfl, ?_⟩
  simp [distant, core, register, Instr.Over, ops, coreOps, Op.slots, Slot.Accepts]

-- The node reads the subroutine as one of application 0.
theorem sender_modulo_distant :
    distant.Over .vanilla ∧
      HostMessage.decode (HostMessage.initApp 65536 1).encode = .ok (.initApp 65536 1) ∧
      ∃ payload r, distant.encode = .ok payload ∧ Subroutine.decode .vanilla payload = .ok r ∧
        ¬ r.appId = some 65536 := by
  rcases sender_modulo (f := .vanilla) distant_over rfl (by decide) (by decide) 1 with
    ⟨hInit, payload, r, hEncode, _, hDecode, _, hApp⟩
  exact ⟨distant_over, hInit, payload, r, hEncode, hDecode, fun hSame => by
    exact absurd (hApp.mp hSame) (by decide)⟩

-- The host sends a subroutine for application 65536, and the register of application 0 is set.
theorem register_of_other_set :
    ∃ payload, distant.encode = .ok payload ∧ (effect (do
          deliver (.initApp 0 1)
          deliver (.initApp 65536 1)
          deliver (.subroutine payload))
        (Node.fresh "alice" 0 .vanilla false true)).2.registers =
          [(0, [(⟨.r, 0⟩, some 5)]), (65536, [])] :=
  ⟨[0, 10, 0, 0, 4, 0, 5, 0, 0, 0, 0], by decide +kernel, by decide +kernel⟩

end QuantumNode.Node
