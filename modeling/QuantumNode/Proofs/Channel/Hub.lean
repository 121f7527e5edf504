import Mathlib.Logic.Function.Basic
import QuantumNode.Channel.Socket
import QuantumNode.Proofs.Effect

/-
  Calls of sockets at their hub, one after the other and from any number of sockets. Messages are
  received in the order in which they were sent, and the two ends of a socket find each other
  however their calls fall among those of other sockets.
-/

open List

namespace QuantumNode
open Function

inductive Call
  | connect (k : SocketKey) (receiver : Option Receiver)
  | send (k : SocketKey) (message : String)
  | receive (k : SocketKey)
  | disconnect (k : SocketKey)

namespace Call

def moved? : Call → Option SocketKey
  | connect k _ | disconnect k => some k
  | _ => none

def receiver? : Call → Option Receiver
  | connect _ receiver => receiver
  | _ => none

end Call

namespace Hub
variable {h : Hub} {k e : SocketKey} {c : Call} {calls : List Call}

-- A call that is refused, or has nothing to receive, changes nothing.
def after (h : Hub) : Call → Hub
  | .connect k receiver => h.join k receiver
  | .send k message => (h.send k message).toOption.elim h Prod.fst
  | .receive k => (h.receive k).elim h Prod.snd
  | .disconnect k => h.disconnect k

-- What a call sends from a key, and what it receives at one.
def sends (h : Hub) (k : SocketKey) : Call → List String
  | .send k' m => if k' = k then (h.send k m).toOption.toList.map fun _ => m else []
  | _ => []

def receives (h : Hub) (k : SocketKey) : Call → List String
  | .receive k' => if k' = k then (h.receive k).toList.map Prod.fst else []
  | _ => []

def run (h : Hub) (calls : List Call) : Hub := calls.foldl after h

-- What all calls together send from a key, or receive at one.
def along (does : Hub → Call → List String) : Hub → List Call → List String
  | _, [] => []
  | h, c :: rest => does h c ++ along does (h.after c) rest

theorem send_eq (hPlain : h.receivers = []) (k : SocketKey) (m : String) :
    h.send k m = if h.isConnected k then .ok (h.deliver k.partner m, none)
      else .error (.channel .disconnected) := by
  unfold send
  cases h.isConnected k <;> simp [hPlain, Table.get?]

theorem waiting_put (k other : SocketKey) (ms : List String) :
    ({ h with mailboxes := Table.put k ms h.mailboxes } : Hub).waiting other =
      if other = k then ms else h.waiting other := by
  unfold waiting
  split
  · rename_i hSame
    rw [hSame, Table.get?_put_self]
    rfl
  · rename_i hOther
    rw [Table.get?_put_of_ne hOther]

theorem receivers_after (hPlain : h.receivers = []) (hCall : c.receiver? = none) :
    (h.after c).receivers = [] := by
  cases c with
  | connect k receiver =>
    cases hCall
    exact hPlain
  | send k m =>
    rw [after, send_eq hPlain]
    split <;> exact hPlain
  | receive k =>
    rw [after, receive]
    split <;> exact hPlain
  | disconnect k => simp [after, disconnect, hPlain, Table.erase]

-- What waits and what is sent is received or still waits, in the same order.
theorem waiting_after (hPlain : h.receivers = []) (c : Call) (k : SocketKey) :
    h.waiting k ++ h.sends k.partner c = h.receives k c ++ (h.after c).waiting k := by
  cases c with
  | connect k' receiver | disconnect k' => exact append_nil _
  | send k' m =>
    simp only [sends, after, send_eq hPlain]
    by_cases hSame : k' = k.partner
    · subst hSame
      rw [if_pos rfl]
      split
      · exact ((waiting_put k k _).trans (if_pos rfl)).symm
      · exact append_nil _
    · have hOther : k ≠ k'.partner := fun hIs => hSame (hIs ▸ rfl)
      rw [if_neg hSame, append_nil]
      split
      · exact ((waiting_put _ k _).trans (if_neg hOther)).symm
      · rfl
  | receive k' =>
    simp only [sends, receives, after, append_nil, receive]
    by_cases hSame : k' = k
    · subst hSame
      rw [if_pos rfl]
      cases hWaiting : h.waiting k' with
      | nil => exact hWaiting.symm
      | cons m rest => exact (congrArg (m :: ·) ((waiting_put k' k' rest).trans (if_pos rfl))).symm
    · rw [if_neg hSame]
      split
      · rfl
      · exact ((waiting_put k' k _).trans (if_neg (Ne.symm hSame))).symm

theorem waiting_run (hPlain : h.receivers = []) (hCalls : ∀ c ∈ calls, c.receiver? = none)
    (k : SocketKey) :
    h.waiting k ++ along (·.sends k.partner) h calls =
        along (·.receives k) h calls ++ (h.run calls).waiting k ∧
      (h.run calls).receivers = [] := by
  induction calls generalizing h with
  | nil => exact ⟨append_nil _, hPlain⟩
  | cons c rest ih =>
    have hLater := ih (receivers_after hPlain (hCalls c mem_cons_self)) fun c hc =>
      hCalls c (mem_cons_of_mem _ hc)
    refine ⟨?_, hLater.2⟩
    rw [along, along, ← append_assoc, waiting_after hPlain, append_assoc, hLater.1, append_assoc]
    rfl

/-
  Of sockets without callbacks. What was received at a key is the beginning of what was sent from
  its partner, and the rest waits. Then a key can send exactly if both ends are open, and a refused
  message changes nothing.
-/
theorem delivered_in_order
    (calls : List Call)
    (hCalls : ∀ c ∈ calls, c.receiver? = none)
    (k : SocketKey) :
    along (·.sends k.partner) .empty calls =
        along (·.receives k) .empty calls ++ (Hub.empty.run calls).waiting k ∧
      ∀ m, ((Hub.empty.run calls).isConnected k = true →
          (Hub.empty.run calls).sends k (.send k m) = [m]) ∧
        ((Hub.empty.run calls).isConnected k = false →
          (Hub.empty.run calls).send k m = .error (.channel .disconnected) ∧
            (Hub.empty.run calls).after (.send k m) = Hub.empty.run calls) := by
  rcases waiting_run (h := .empty) rfl hCalls k with ⟨hMessages, hPlain⟩
  refine ⟨hMessages, fun m => ⟨fun hOpen => ?_, fun hShut => ?_⟩⟩
  · simp [sends, send_eq hPlain, hOpen, Except.toOption]
  · simp [after, send_eq hPlain, hShut, Except.toOption]

-- A socket that leaves and comes back while a message waits for it.
def returning : List Call :=
  let k : SocketKey := ⟨"alice", "bob", 0⟩
  [.connect k none, .connect k.partner none, .send k "one", .disconnect k.partner, .send k "lost",
   .connect k.partner none, .send k "two", .receive k.partner]

theorem delivered_in_order_returning :
    along (·.sends ⟨"alice", "bob", 0⟩) .empty returning = ["one", "two"] ∧
      along (·.sends ⟨"alice", "bob", 0⟩) .empty returning =
        along (·.receives ⟨"bob", "alice", 0⟩) .empty returning ++
          (Hub.empty.run returning).waiting ⟨"bob", "alice", 0⟩ :=
  ⟨by decide +kernel,
    (delivered_in_order returning (by simp [returning, Call.receiver?]) ⟨"bob", "alice", 0⟩).1⟩

-- How far an end of a socket has come.
inductive Phase
  | absent
  | waiting
  | joined
  | left
  deriving DecidableEq

-- The two ends of a socket, which come, look for each other and leave, among calls that open and
-- close other keys.
inductive Meeting (k : SocketKey) (start : Hub) : Hub → (SocketKey → Phase) → Prop
  | start : Meeting k start start fun _ => .absent
  | other {h : Hub} {phase : SocketKey → Phase} {c : Call} :
      Meeting k start h phase → c.moved? ≠ some k → c.moved? ≠ some k.partner →
      Meeting k start (h.after c) phase
  | register {h : Hub} {phase : SocketKey → Phase} {e : SocketKey} (receiver : Option Receiver) :
      Meeting k start h phase → e = k ∨ e = k.partner → phase e = .absent →
      Meeting k start (h.join e receiver) (update phase e .waiting)
  | poll {h : Hub} {phase : SocketKey → Phase} {e : SocketKey} :
      Meeting k start h phase → e = k ∨ e = k.partner → phase e = .waiting →
      Meeting k start h (update phase e (if h.hasPartner e then .joined else .waiting))
  | leave {h : Hub} {phase : SocketKey → Phase} {e : SocketKey} :
      Meeting k start h phase → e = k ∨ e = k.partner → phase e = .joined →
      Meeting k start (h.disconnect e) (update phase e .left)

-- A key is open while its end is there, and known until the other end leaves.
structure Kept (h : Hub) (phase : SocketKey → Phase) (e : SocketKey) : Prop where
  opened : h.openKeys.count e = if phase e = .waiting ∨ phase e = .joined then 1 else 0
  known : h.knownKeys.count e = if phase e ≠ .absent ∧ phase e.partner ≠ .left then 1 else 0
  met : phase e = .joined ∨ phase e = .left → phase e.partner ≠ .absent

theorem count_including (keys : List SocketKey) (k e : SocketKey) :
    (including k keys).count e = if e = k then max 1 (keys.count e) else keys.count e := by
  unfold including
  by_cases hSame : e = k
  · subst hSame
    by_cases hThere : e ∈ keys
    · have := count_pos_iff.mpr hThere
      simp only [contains_eq_mem, hThere, decide_true, if_true]
      omega
    · simp [hThere, count_eq_zero_of_not_mem hThere]
  · split <;> simp [Ne.symm hSame]

-- A call that opens or closes neither end does not matter to them.
theorem counts_after (c : Call) (hEnd : c.moved? ≠ some e) (hOther : c.moved? ≠ some e.partner) :
    (h.after c).openKeys.count e = h.openKeys.count e ∧
      (h.after c).knownKeys.count e = h.knownKeys.count e := by
  cases c with
  | connect k' receiver =>
    have hNot : e ≠ k' := fun hIs => hEnd (hIs ▸ rfl)
    simp [after, join, count_including, hNot]
  | send k' m =>
    simp only [after, send]
    split
    · exact ⟨rfl, rfl⟩
    · split <;> exact ⟨rfl, rfl⟩
  | receive k' =>
    simp only [after, receive]
    split <;> exact ⟨rfl, rfl⟩
  | disconnect k' =>
    have hNot : e ≠ k' := fun hIs => hEnd (hIs ▸ rfl)
    have hNot' : e ≠ k'.partner := fun hIs => hOther (by rw [hIs]; rfl)
    simp [after, disconnect, count_erase_of_ne hNot, count_erase_of_ne hNot']

theorem hasPartner_iff :
    h.hasPartner e = true ↔ 0 < h.openKeys.count e.partner ∨ 0 < h.knownKeys.count e.partner := by
  simp [hasPartner]

section Steps
variable {phase : SocketKey → Phase} (hApart : e ≠ e.partner) (hHere : Kept h phase e)
  (hThere : Kept h phase e.partner)

include hApart hHere hThere
theorem Kept.register (receiver : Option Receiver) (hPhase : phase e = .absent) :
    Kept (h.join e receiver) (update phase e .waiting) e ∧
      Kept (h.join e receiver) (update phase e .waiting) e.partner := by
  rcases hHere with ⟨hOpen, hKnown, _⟩
  rcases hThere with ⟨hOpen', hKnown', hMet'⟩
  constructor <;> constructor <;> simp_all [join, count_including, hApart.symm]

theorem Kept.poll (hPhase : phase e = .waiting) :
    let later := update phase e (if h.hasPartner e then .joined else .waiting)
    Kept h later e ∧ Kept h later e.partner := by
  rcases hHere with ⟨hOpen, hKnown, _⟩
  rcases hThere with ⟨hOpen', hKnown', hMet'⟩
  have hFound : h.hasPartner e = true → phase e.partner ≠ .absent := by
    intro hSeen hAbsent
    rw [hasPartner_iff, hOpen', hKnown', hAbsent] at hSeen
    simp at hSeen
  cases hSeen : h.hasPartner e <;> constructor <;> constructor <;>
    simp_all [update_of_ne hApart.symm]

theorem Kept.leave (hPhase : phase e = .joined) :
    Kept (h.disconnect e) (update phase e .left) e ∧
      Kept (h.disconnect e) (update phase e .left) e.partner := by
  rcases hHere with ⟨hOpen, hKnown, hMet⟩
  rcases hThere with ⟨hOpen', hKnown', hMet'⟩
  constructor <;> constructor <;>
    simp_all [disconnect, count_erase_of_ne hApart.symm,
      update_of_ne hApart.symm]

end Steps

theorem Meeting.kept {start : Hub} {phase : SocketKey → Phase} (hMeeting : Meeting k start h phase)
    (hApart : k ≠ k.partner) (hOpen : k ∉ start.openKeys ∧ k.partner ∉ start.openKeys)
    (hKnown : k ∉ start.knownKeys ∧ k.partner ∉ start.knownKeys) :
    Kept h phase k ∧ Kept h phase k.partner := by
  induction hMeeting with
  | start =>
    constructor <;> constructor <;>
      simp [count_eq_zero_of_not_mem hOpen.1, count_eq_zero_of_not_mem hOpen.2,
        count_eq_zero_of_not_mem hKnown.1, count_eq_zero_of_not_mem hKnown.2]
  | @other h phase c _ hEnd hOther ih =>
    rcases counts_after (h := h) c hEnd hOther with ⟨hOpened, hSeen⟩
    rcases counts_after (h := h) c hOther hEnd with ⟨hOpened', hSeen'⟩
    exact ⟨⟨hOpened.trans ih.1.opened, hSeen.trans ih.1.known, ih.1.met⟩,
      ⟨hOpened'.trans ih.2.opened, hSeen'.trans ih.2.known, ih.2.met⟩⟩
  | register receiver _ hEnd hPhase ih =>
    rcases hEnd with rfl | rfl
    · exact Kept.register hApart ih.1 ih.2 receiver hPhase
    · exact (Kept.register hApart.symm ih.2 ih.1 receiver hPhase).symm
  | poll _ hEnd hPhase ih =>
    rcases hEnd with rfl | rfl
    · exact Kept.poll hApart ih.1 ih.2 hPhase
    · exact (Kept.poll hApart.symm ih.2 ih.1 hPhase).symm
  | leave _ hEnd hPhase ih =>
    rcases hEnd with rfl | rfl
    · exact Kept.leave hApart ih.1 ih.2 hPhase
    · exact (Kept.leave hApart.symm ih.2 ih.1 hPhase).symm

-- An end that looks for the other one finds it as soon as the other one has come, also if it has
-- left again; and when both have left, neither key is open or known.
theorem ends_meet
    {k : SocketKey}
    {start h : Hub}
    {phase : SocketKey → Phase}
    (hApart : k.app ≠ k.remote)
    (hOpen : k ∉ start.openKeys ∧ k.partner ∉ start.openKeys)
    (hKnown : k ∉ start.knownKeys ∧ k.partner ∉ start.knownKeys)
    (hMeeting : Meeting k start h phase) :
    (∀ e, e = k ∨ e = k.partner → phase e = .waiting → phase e.partner ≠ .absent →
        h.hasPartner e = true) ∧
      (phase k = .left → phase k.partner = .left →
        ∀ e, e = k ∨ e = k.partner → e ∉ h.openKeys ∧ e ∉ h.knownKeys) := by
  have hOther : k ≠ k.partner := fun hSame => hApart (congrArg SocketKey.app hSame)
  rcases hMeeting.kept hOther hOpen hKnown with ⟨hHere, hThere⟩
  constructor
  · rintro e (rfl | rfl) _ _
    · rw [hasPartner_iff, hThere.known]
      simp_all
    · rw [hasPartner_iff, SocketKey.partner_partner, hHere.known]
      simp_all
  · rintro _ _ e (rfl | rfl)
    · rw [← count_eq_zero, ← count_eq_zero, hHere.opened, hHere.known]
      simp_all
    · rw [← count_eq_zero, ← count_eq_zero, hThere.opened, hThere.known]
      simp_all

-- One end has come, found the other one and left before the other one looks for it.
theorem ends_meet_late :
    let k : SocketKey := ⟨"alice", "bob", 0⟩
    let h := ((Hub.empty.join k none).join k.partner none).disconnect k
    k ∉ h.openKeys ∧ h.hasPartner k.partner = true := by
  intro k h
  have hStart : Meeting k .empty .empty _ := .start
  have hMeeting := (((hStart.register none (.inl rfl) rfl).register none (.inr rfl) rfl).poll
    (.inl rfl) rfl).leave (.inl rfl) rfl
  exact ⟨by decide +kernel,
    (ends_meet (by decide) (by simp [empty]) (by simp [empty]) hMeeting).1 _ (.inr rfl) rfl
      (by rintro ⟨⟩)⟩

end Hub

end QuantumNode
