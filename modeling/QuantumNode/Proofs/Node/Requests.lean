import QuantumNode.Proofs.Node.Access
import QuantumNode.Proofs.Node.Responses
import QuantumNode.Proofs.Subroutine.RoundTrip
import QuantumNode.Session.Pairs

/-
  Histories of a node: instructions that ask for pairs and that allocate and free qubits, responses
  that arrive, and what the instructions ask for; and how the parameters of a request get to the
  newer interface of the link layer.
-/

open List

namespace QuantumNode.Node
open CreateRequest LinkRequest PairRequest Slot
variable {id results socket : Int} {qubits : Option Int} {e k n q : Reg} {r : Response}
  {x : Unit}

variable {address app remote : Int} {p : Partner} {a : Unit} (s : Node)

---- Deeds

-- What happens at a node: an instruction of a subroutine, the arrival of a response, or another try
-- at those that wait.
inductive Deed
  | instr (sub : Nat) (line : Int) (i : Instr)
  | arrive (r : NewResponse)
  | retry
  deriving DecidableEq

-- The response that a node keeps of what arrives.
def taken? : NewResponse → Option Response
  | .former r => some r
  | .keep fs => (NewResponse.keep fs).convert.toOption
  | .measure fs => (NewResponse.measure fs).convert.toOption
  | .error fs => (NewResponse.error fs).convert.toOption
  | .prepare _ => none

namespace Deed

def act : Deed → NodeM Unit
  | instr sub line i => do
    let _ ← execute sub line i
  | arrive r => handleResponse r
  | retry => drain

def after (d : Deed) (s : Node) : Node := (effect d.act s).2

def answers (d : Deed) (s : Node) : Bool := (effect d.act s).1.isOk

def isInstr : Deed → Bool
  | instr _ _ _ => true
  | _ => false

end Deed

def after (ds : List Deed) (s : Node) : Node := ds.foldl (fun t d => d.after t) s

-- The deeds of a kind are all answered.
def answered (kind : Deed → Bool) : List Deed → Node → Bool
  | [], _ => true
  | d :: ds, s => (!kind d || d.answers s) && answered kind ds (d.after s)

---- Requests

-- What an instruction asks for: the partner, and the pairs with the arrays for their addresses and
-- for their results.
def request? (sub : Nat) : Instr → Option (Partner × PairTask)
  | .op _ .createEpr [.reg n, .reg k, .reg q, .reg a, .reg e] _ => do
    let app ← s.appFor sub
    let remote ← s.registerOf app n
    let socket ← s.registerOf app k
    let arguments ← s.blockOf sub (← s.registerOf app a)
    let results ← s.registerOf app e
    let request ← (ofArguments remote socket (s.heap.get arguments)).toOption
    return (⟨true, (remote, socket)⟩,
      ⟨sub, results, s.registerOf app q, request.number, request.number⟩)
  | .op _ .recvEpr [.reg n, .reg k, .reg q, .reg e] _ => do
    let app ← s.appFor sub
    let remote ← s.registerOf app n
    let socket ← s.registerOf app k
    let results ← s.registerOf app e
    let count := (s.heap.get (← s.blockOf sub results)).length / resultFields
    return (⟨false, (remote, socket)⟩, ⟨sub, results, s.registerOf app q, count, count⟩)
  | _ => none

def Deed.asks : Deed → List (Partner × PairTask)
  | instr sub _ i => (request? s sub i).toList
  | _ => []

def asked : List Deed → Node → List (Partner × PairTask)
  | [], _ => []
  | d :: ds, s => d.asks s ++ asked ds (d.after s)

def Deed.brings? : Deed → Option Response
  | arrive r => taken? r
  | _ => none

def arrived (ds : List Deed) : List Response := ds.filterMap Deed.brings?

def fromPartner (id : Int) (p : Partner) (rs : List Response) : List Response :=
  rs.filter fun r => partner? id r = some p

def pairsOf (p : Partner) (requests : List (Partner × PairTask)) : List (PairTask × Nat) :=
  (requests.filter fun q => q.1 = p).flatMap fun q =>
    (List.range q.2.total.toNat).map fun k => (q.2, k)

def waiting (p : Partner) : List Response := fromPartner s.id p (s.pending.filterMap taken?)

-- A response without a qubit does not arrive while one with a qubit from the same partner waits.
def Deed.inTurn : Deed → Bool
  | arrive r => (taken? r).all fun r =>
    r.isKeep || (partner? s.id r).all fun p => (s.waiting p).all fun w => !w.isKeep
  | _ => true

def orderly : List Deed → Node → Bool
  | [], _ => true
  | d :: ds, s => d.inTurn s && orderly ds (d.after s)

section Histories
variable {ds : List Deed} {d : Deed} {s : Node}

theorem asked_append (ds more : List Deed) (s : Node) :
    asked (ds ++ more) s = asked ds s ++ asked more (after ds s) := by
  induction ds generalizing s with
  | nil => rfl
  | cons d ds ih =>
    rw [cons_append, asked, asked, ih, append_assoc]
    rfl

theorem answered_append (kind : Deed → Bool) (ds more : List Deed) (s : Node) :
    answered kind (ds ++ more) s = (answered kind ds s && answered kind more (after ds s)) := by
  induction ds generalizing s with
  | nil => rfl
  | cons d ds ih =>
    rw [cons_append, answered, answered, ih, Bool.and_assoc]
    rfl

theorem orderly_append (ds more : List Deed) (s : Node) :
    orderly (ds ++ more) s = (orderly ds s && orderly more (after ds s)) := by
  induction ds generalizing s with
  | nil => rfl
  | cons d ds ih =>
    rw [cons_append, orderly, orderly, ih, Bool.and_assoc]
    rfl

theorem pairsOf_append (p : Partner) (requests more : List (Partner × PairTask)) :
    pairsOf p (requests ++ more) = pairsOf p requests ++ pairsOf p more := by
  simp [pairsOf]

theorem fromPartner_next (hFirst : ∀ r' ∈ done, partner? id r' ≠ some p)
    (hPartner : partner? id r = some p) (todo : List Response) :
    fromPartner id p (done ++ r :: todo) = r :: fromPartner id p (done ++ todo) := by
  have hNone : done.filter (fun r => partner? id r = some p) = [] := by
    refine filter_eq_nil_iff.mpr fun r' hr' => ?_
    simpa using hFirst r' hr'
  unfold fromPartner
  rw [filter_append, filter_append, hNone, filter_cons_of_pos (by simpa using hPartner)]
  rfl

theorem mem_pairsOf :
    slot ∈ pairsOf p requests ↔ (p, slot.1) ∈ requests ∧ slot.2 < slot.1.total.toNat := by
  simp only [pairsOf, mem_flatMap, mem_filter, mem_map, mem_range, decide_eq_true_eq]
  constructor
  · rintro ⟨_, ⟨hMember, rfl⟩, k, hk, rfl⟩
    exact ⟨hMember, hk⟩
  · rintro ⟨hMember, hk⟩
    exact ⟨_, ⟨hMember, rfl⟩, slot.2, hk, rfl⟩

end Histories

---- Instructions

-- Instructions about pairs and qubits, and those that load their operands, with an operand for each
-- slot.
def concernsPairs : Instr → Bool
  | .op _ op operands _ =>
    [.set, .qalloc, .qfree, .createEpr, .recvEpr].contains op &&
      decide (fitAll? op.slots operands = some operands)
  | .note _ => false

def pairsLeft (ts : List PairTask) : List (PairTask × Nat) :=
  ts.flatMap fun task =>
    (List.range task.left.toNat).map fun k =>
      ({ task with left := task.total }, (task.total - task.left).toNat + k)

-- Only requests are added, and only qubits may be in use otherwise.
structure Asks (requests : List (Partner × PairTask)) (s t : Node) : Prop where
  apps : SameApps s t
  heap_eq : t.heap = s.heap
  pending_eq : t.pending = s.pending
  queues : ∀ p, t.queue p = s.queue p ++ (requests.filter fun q => q.1 = p).map Prod.snd

section Instructions
variable {s t : Node} {sub : Nat}

theorem forApp_ok {α : Type} {f : Int → NodeM α} {a : α}
    (hEffect : effect (appOf sub >>= f) s = (.ok a, t)) :
    ∃ app, s.appFor sub = some app ∧ effect (f app) s = (.ok a, t) := by
  rcases of_bind_ok hEffect with ⟨app, _, hApp, hLater⟩
  simp only [appOf, effect_bind, effect_get] at hApp
  split at hApp <;> cases hApp
  rename_i hFound
  refine ⟨app, ?_, hLater⟩
  rw [appFor, hFound]
  rfl

theorem reading_ok {α : Type} {f : Option Int → NodeM α} {a : α}
    (hEffect : effect (ofRegister app (.reg q) >>= f) s = (.ok a, t)) :
    effect (f (s.registerOf app q)) s = (.ok a, t) := by
  rcases of_bind_ok hEffect with ⟨v, _, hRead, hLater⟩
  rcases ofRegister_ok hRead with ⟨rfl, _, ⟨⟩, rfl⟩
  exact hLater

theorem filterMap_getElem? (before b : Block) :
    (List.range' before.length b.length).filterMap (fun place => (before ++ b)[place]?) = b := by
  induction b generalizing before with
  | nil => rfl
  | cons v rest ih =>
    have hRest := ih (before ++ [v])
    rw [length_append, length_singleton, append_assoc] at hRest
    rw [length_cons, range'_succ, filterMap_cons]
    simp only [getElem?_append_right (Nat.le_refl _), Nat.sub_self, getElem?_cons_zero]
    rw [show before ++ v :: rest = before ++ ([v] ++ rest) from rfl, hRest]

theorem readSlice_full (b : Block) : b.readSlice .full = .ok b := by
  have hCount : Slice.count 0 b.length 1 = b.length := by
    unfold Slice.count
    rw [if_pos (by decide)]
    split <;> omega
  have hPositions : Slice.full.positions b.length = .ok (List.range' 0 b.length) := by
    change Except.ok ((List.range (Slice.count 0 b.length 1)).map fun k =>
      ((0 : Int) + Int.ofNat k * 1).toNat) = _
    rw [hCount, range'_eq_map_range]
    congr 1
    refine map_congr_left fun k _ => ?_
    change ((0 : Int) + (k : Int) * 1).toNat = 0 + k
    omega
  simp only [Block.readSlice, hPositions]
  exact congrArg Except.ok (filterMap_getElem? [] b)

theorem demandArray_ok (hApp : s.appFor sub = some app)
    (hArray : effect (demandArray app address) s = (.ok b, t)) :
    t = s ∧ ∃ n, s.blockOf sub address = some n ∧ s.heap.get n = b := by
  rcases of_bind_ok hArray with ⟨found, _, hRead, hDone⟩
  rcases of_bind_ok hRead with ⟨arrays, _, hArrays, hSlice⟩
  rw [arraysOf, effect_get_bind] at hArrays
  split at hArrays <;> cases hArrays
  rename_i hHeld
  rcases effect_lift_ok hSlice with ⟨hFound, rfl⟩
  rcases Checked.bind_ok hFound with ⟨_, _, hEntries⟩
  split at hEntries
  · cases hEntries
    cases hDone
  · rename_i n hNumber
    rw [readSlice_full] at hEntries
    cases hEntries
    cases hDone
    refine ⟨rfl, n, ?_, rfl⟩
    rw [blockOf, hApp, Option.bind_some, hHeld, Option.bind_some, hNumber]

-- Only the qubits of applications change, and no unit module grows or shrinks.
def Requbits (s t : Node) : Prop :=
  ∃ units used,
    (∀ app, (Table.get? app units).map List.length = (Table.get? app s.units).map List.length) ∧
    t = { s with units := units, used := used }

theorem allocate_ok (hAllocate : effect (allocate sub address none) s = (.ok qubit, t)) :
    Requbits s t := by
  rcases allocate_cases sub address none s with
    ⟨e, hRefused⟩ | ⟨_, _, _, q, u, hDone, _, hUnit, hShape, _⟩
  · cases hRefused.symm.trans hAllocate
  · cases hDone.symm.trans hAllocate
    exact ⟨_, _, sizes_put hUnit _ _, hShape⟩

theorem free_ok (hFree : effect (free sub address) s = (.ok a, t)) : Requbits s t := by
  rcases free_cases sub address s with ⟨e, hRefused, _⟩ | ⟨_, _, _, _, _, hUnit, _, hRelease⟩
  · cases hRefused.symm.trans hFree
  · rw [hRelease] at hFree
    simp only [release, effect_bind, effect_get] at hFree
    split at hFree
    · cases hFree
      exact ⟨_, _, sizes_put hUnit _ _, rfl⟩
    · cases hFree

theorem Requbits.asks (hSame : Requbits s t) : Asks [] s t := by
  rcases hSame with ⟨units, used, hSizes, rfl⟩
  refine ⟨⟨rfl, rfl, rfl, rfl, hSizes⟩, rfl, rfl, fun p => ?_⟩
  exact (append_nil _).symm

theorem setReg_asks {v : Int} {r : Reg} (hSet : effect (setReg app r v) s = (.ok a, t)) :
    Asks [] s t := by
  rcases setReg_ok hSet with ⟨_, _, rfl⟩
  exact ⟨⟨rfl, rfl, rfl, rfl, fun _ => rfl⟩, rfl, rfl, fun p => (append_nil _).symm⟩

theorem pushTask_asks (hSame : Asks [] s t)
    (hPush : effect (pushTask p.isCreator p.key task) t = (.ok a, u)) : Asks [(p, task)] s u := by
  rcases (Prod.mk.inj hPush).2.symm with rfl
  change Asks _ s (t.withQueue p (t.queue p ++ [task]))
  refine ⟨hSame.apps.trans withQueue_sameApps, withQueue_heap.trans hSame.heap_eq,
    withQueue_pending.trans hSame.pending_eq, fun q => ?_⟩
  have hBefore : ∀ q, t.queue q = s.queue q := fun q => (hSame.queues q).trans (append_nil _)
  by_cases hPartner : q = p
  · subst hPartner
    rw [hBefore]
    simp
  · rw [queue_withQueue_of_ne hPartner, hBefore]
    simp [Ne.symm hPartner]

theorem demandStack_ok (hStack : effect demandStack s = (.ok a, t)) : t = s := by
  simp only [demandStack, effect_bind, effect_get] at hStack
  split at hStack
  · cases hStack
  · cases hStack
    rfl

theorem emit_ok {e : Event} (hEmit : effect (emit e) s = (.ok a, t)) : Asks [] s t := by
  cases hEmit
  exact ⟨⟨rfl, rfl, rfl, rfl, fun _ => rfl⟩, rfl, rfl, fun p => (append_nil _).symm⟩

theorem createPairs_ok {arguments : Int} (hApp : s.appFor sub = some app)
    (hCreate : effect (createPairs sub app remote socket qubits arguments results) s = (.ok a, t)) :
    ∃ n request, s.blockOf sub arguments = some n ∧
      ofArguments remote socket (s.heap.get n) = .ok request ∧
      Asks [(⟨true, (remote, socket)⟩, ⟨sub, results, qubits, request.number, request.number⟩)]
        s t := by
  rcases of_bind_ok hCreate with ⟨_, s₁, hStack, hArray⟩
  obtain rfl := demandStack_ok hStack
  rcases of_bind_ok hArray with ⟨b, s₂, hArray, hRequest⟩
  rcases demandArray_ok hApp hArray with ⟨rfl, n, hBlock, rfl⟩
  rcases of_lift_bind_ok hRequest with ⟨request, hRequest, hRest⟩
  refine ⟨n, request, hBlock, hRequest, ?_⟩
  have hPurpose : request.purpose = socket := by
    unfold ofArguments at hRequest
    split at hRequest
    · split at hRequest <;> cases hRequest
      rfl
    · cases hRequest
  have hEnd : effect (do
      emit (.request request)
      pushTask true (remote, request.purpose)
        ⟨sub, results, qubits, request.number, request.number⟩) s₂ = (.ok a, t) := by
    by_cases hKeep : request.kind = .keep
    · simp only [hKeep] at hRest
      cases qubits with
      | none => cases hRest
      | some address =>
        rcases of_bind_ok hRest with ⟨ids, s₄, hIds, hCounted⟩
        rcases demandArray_ok hApp hIds with ⟨rfl, _⟩
        rcases of_lift_bind_ok hCounted with ⟨_, _, hEnd⟩
        exact hEnd
    · simp only [hKeep] at hRest
      exact hRest
  rcases of_bind_ok hEnd with ⟨_, s₄, hEmit, hPush⟩
  rw [hPurpose] at hPush
  exact pushTask_asks (p := ⟨true, (remote, socket)⟩) (emit_ok hEmit) hPush

theorem recvPairs_ok (hApp : s.appFor sub = some app)
    (hRecv : effect (recvPairs sub app remote socket qubits results) s = (.ok a, t)) :
    ∃ n, s.blockOf sub results = some n ∧ Asks [(⟨false, (remote, socket)⟩, ⟨sub, results, qubits,
        ((s.heap.get n).length / resultFields : Nat), ((s.heap.get n).length / resultFields : Nat)⟩)]
        s t := by
  rcases of_bind_ok hRecv with ⟨_, s₁, hStack, hArray⟩
  obtain rfl := demandStack_ok hStack
  rcases of_bind_ok hArray with ⟨b, s₂, hArray, hPush⟩
  rcases demandArray_ok hApp hArray with ⟨rfl, n, hBlock, rfl⟩
  refine ⟨n, hBlock, ?_⟩
  have hSame : Asks [] s₂ s₂ := ⟨.refl s₂, rfl, rfl, fun p => (append_nil _).symm⟩
  exact pushTask_asks (p := ⟨false, (remote, socket)⟩) hSame hPush

theorem createFrom_ok {a : Reg} (family : Family) (line : Option HostLine)
    (hApp : s.appFor sub = some app)
    (hCreate :
      effect (createFrom ofRegister sub app (.reg n) (.reg k) (.reg q) (.reg a) (.reg e)) s =
        (.ok x, t)) :
    Asks (request? s sub (.op family .createEpr [.reg n, .reg k, .reg q, .reg a, .reg e] line)).toList
      s t := by
  have hCreate := reading_ok (reading_ok (reading_ok (reading_ok (reading_ok hCreate))))
  split at hCreate
  · rename_i hRemote hSocket hArguments hResults
    rcases createPairs_ok hApp hCreate with ⟨_, request, hBlock, hRequest, hAsks⟩
    simpa only [request?, hApp, hRemote, hSocket, hArguments, hResults, hBlock, hRequest,
      Except.toOption, Option.bind_some, Option.bind_eq_bind, Option.pure_def, Option.toList_some]
      using hAsks
  · cases hCreate

theorem recvFrom_ok (family : Family) (line : Option HostLine) (hApp : s.appFor sub = some app)
    (hRecv :
      effect (recvFrom ofRegister sub app (.reg n) (.reg k) (.reg q) (.reg e)) s = (.ok x, t)) :
    Asks (request? s sub (.op family .recvEpr [.reg n, .reg k, .reg q, .reg e] line)).toList s t := by
  have hRecv := reading_ok (reading_ok (reading_ok (reading_ok hRecv)))
  split at hRecv
  · rename_i hRemote hSocket hResults
    rcases recvPairs_ok hApp hRecv with ⟨_, hBlock, hAsks⟩
    simpa only [request?, hApp, hRemote, hSocket, hResults, hBlock, Option.bind_some,
      Option.bind_eq_bind, Option.pure_def, Option.toList_some] using hAsks
  · cases hRecv

-- What an instruction about pairs and qubits does: it makes its request, if any.
theorem instr_asks {line : Int} {i : Instr} {out : Int × Option Int}
    (hPairs : concernsPairs i = true) (hOk : effect (execute sub line i) s = (.ok out, t)) :
    Asks (request? s sub i).toList s t := by
  cases i with
  | note _ => cases hPairs
  | op family op os host =>
    simp only [concernsPairs, Bool.and_eq_true, decide_eq_true_eq, contains_eq_mem,
      mem_cons, not_mem_nil, or_false] at hPairs
    rcases hPairs with ⟨hOp, hFits⟩
    rcases hOp with rfl | rfl | rfl | rfl | rfl <;> rcases of_bind_ok hOk with ⟨_, _, hDone, ⟨⟩⟩
    · rcases fitAll?_reg hFits with ⟨r, rest, rfl, hRest⟩
      rcases fitAll?_cons hRest with ⟨n, rest, rfl, _, hNil⟩
      obtain rfl := fitAll?_nil hNil
      rcases forApp_ok hDone with ⟨app, _, hNumber⟩
      rcases of_lift_bind_ok hNumber with ⟨v, _, hLater⟩
      rcases of_bind_ok hLater with ⟨_, _, hSet, ⟨⟩⟩
      exact setReg_asks hSet
    · rcases fitAll?_reg hFits with ⟨q, rest, rfl, hNil⟩
      obtain rfl := fitAll?_nil hNil
      rcases forApp_ok hDone with ⟨app, _, hRead⟩
      have hLater := reading_ok hRead
      split at hLater
      · cases hLater
      · rcases of_bind_ok hLater with ⟨qubit, _, hAllocate, ⟨⟩⟩
        exact (allocate_ok hAllocate).asks
    · rcases fitAll?_reg hFits with ⟨q, rest, rfl, hNil⟩
      obtain rfl := fitAll?_nil hNil
      rcases forApp_ok hDone with ⟨app, _, hRead⟩
      rcases of_bind_ok hRead with ⟨address, _, hValue, hLater⟩
      cases (demandValue_ok hValue).1
      rcases of_bind_ok hLater with ⟨_, _, hFree, ⟨⟩⟩
      exact (free_ok hFree).asks
    · rcases fitAll?_regs hFits with ⟨n, k, _, rfl, hFits₁⟩
      rcases fitAll?_regs hFits₁ with ⟨q, a, _, rfl, hFits₂⟩
      rcases fitAll?_reg hFits₂ with ⟨e, _, rfl, hNil⟩
      obtain rfl := fitAll?_nil hNil
      rcases forApp_ok hDone with ⟨app, hApp, hLater⟩
      rcases of_bind_ok hLater with ⟨_, _, hCreate, ⟨⟩⟩
      exact createFrom_ok family host hApp hCreate
    · rcases fitAll?_regs hFits with ⟨n, k, _, rfl, hFits₁⟩
      rcases fitAll?_regs hFits₁ with ⟨q, e, _, rfl, hNil⟩
      obtain rfl := fitAll?_nil hNil
      rcases forApp_ok hDone with ⟨app, hApp, hLater⟩
      rcases of_bind_ok hLater with ⟨_, _, hRecv, ⟨⟩⟩
      exact recvFrom_ok family host hApp hRecv

end Instructions

---- Parameters

variable {kind : PairKind} {r : PairRequest} {x y z x' y' z' : Int}
  {newer : Member → Option Member}

-- A request with its parameters in the newer interface; no set of bases is chosen from.
def converted (kind : PairKind) (r : PairRequest) (remote socket : Int) :
    String × List (String × LinkValue) :=
  let common := [("remote_node_id", .int remote), ("minimum_fidelity", .int 0),
    ("time_unit", .int (if r.maxTime = 0 then 0 else r.timeUnit.value)),
    ("max_time", .int r.maxTime), ("purpose_id", .int socket), ("number", .int r.number),
    ("priority", .int 0), ("atomic", .int 0), ("consecutive", .int 0)]
  if kind = .keep then ("ReqCreateAndKeep", common)
  else
    let turns := (r.rotationsLocal ++ r.rotationsRemote).map LinkValue.int
    ("ReqMeasureDirectly", common ++ [("random_basis_local", .member randomBasisNone),
       ("random_basis_remote", .member randomBasisNone)] ++
      ["x_rotation_angle_local_1", "y_rotation_angle_local", "x_rotation_angle_local_2",
       "x_rotation_angle_remote_1", "y_rotation_angle_remote", "x_rotation_angle_remote_2"].zip
        turns ++
      [("probability_distribution_parameter_local_1", .int 0),
       ("probability_distribution_parameter_remote_1", .int 0),
       ("probability_distribution_parameter_local_2", .int 0),
       ("probability_distribution_parameter_remote_2", .int 0)])

-- No set of bases to choose from is given, or it does not matter.
def Unchosen (kind : PairKind) (r : PairRequest) : Prop :=
  kind = .keep ∨ r.randomLocal = none ∧ r.randomRemote = none

instance Unchosen.decidable (kind : PairKind) (r : PairRequest) : Decidable (Unchosen kind r) :=
  inferInstanceAs (Decidable (kind = .keep ∨ r.randomLocal = none ∧ r.randomRemote = none))

-- The values at three places, if they are not all zero.
def turned (vs : List Int) : List (Option Int) :=
  if vs = unrotated then [none, none, none] else vs.map some

theorem arguments_eq (hKind : kind = .keep ∨ kind = .measure)
    (hLocal : r.rotationsLocal = [x, y, z]) (hRemote : r.rotationsRemote = [x', y', z']) :
    r.arguments kind = [some kind.value, some r.number] ++
        (if kind = .keep then [none, none] else [r.randomLocal, r.randomRemote]) ++
        [none, if r.maxTime = 0 then none else some r.timeUnit.value,
          if r.maxTime = 0 then none else some r.maxTime] ++ List.replicate 7 none ++
        if kind = .keep then List.replicate 6 none
        else turned r.rotationsLocal ++ turned r.rotationsRemote := by
  unfold arguments turned
  rw [hLocal, hRemote]
  rcases hKind with rfl | rfl
  · by_cases hTime : r.maxTime = 0 <;> simp [hTime] <;> rfl
  · cases r.randomLocal <;> cases r.randomRemote <;> by_cases hTime : r.maxTime = 0 <;>
      by_cases hHere : [x, y, z] = unrotated <;>
      by_cases hThere : [x', y', z'] = unrotated <;>
      simp only [hTime, hHere, hThere, ne_eq] <;> rfl

theorem turned_eq (x y z : Int) :
    ∃ a b c, turned [x, y, z] = [a, b, c] ∧ a.getD 0 = x ∧ b.getD 0 = y ∧ c.getD 0 = z := by
  unfold turned
  split
  · rename_i hNone
    cases hNone
    exact ⟨_, _, _, rfl, rfl, rfl, rfl⟩
  · exact ⟨_, _, _, rfl, rfl, rfl, rfl⟩

theorem ofArguments_arguments (remote socket : Int) (hKind : kind = .keep ∨ kind = .measure)
    (hLocal : r.rotationsLocal = [x, y, z]) (hRemote : r.rotationsRemote = [x', y', z'])
    (hNewer : newer randomBasisNone = some randomBasisNone) :
    ∃ q, ofArguments remote socket (r.arguments kind) = .ok q ∧
      (q.kind = .keep ↔ kind = .keep) ∧ q.number = r.number ∧
      convert (.create q) newer =
        if Unchosen kind r then .ok (converted kind r remote socket) else .error .noAttribute := by
  rw [arguments_eq hKind hLocal hRemote]
  have hUnit : (if r.maxTime = 0 then none else some r.timeUnit.value).getD 0 =
      if r.maxTime = 0 then 0 else r.timeUnit.value := by
    split <;> rfl
  have hTime : (if r.maxTime = 0 then none else some r.maxTime).getD 0 = r.maxTime := by
    split
    · rename_i hNone
      exact hNone.symm
    · rfl
  rcases hKind with rfl | rfl
  · refine ⟨_, rfl, by simp, rfl, ?_⟩
    simp only [hUnit, hTime]
    rfl
  · rw [hLocal, hRemote]
    rcases turned_eq x y z with ⟨a, b, c, hTurned, rfl, rfl, rfl⟩
    rcases turned_eq x' y' z' with ⟨a', b', c', hTurned', rfl, rfl, rfl⟩
    rw [hTurned, hTurned']
    refine ⟨_, rfl, by simp, rfl, ?_⟩
    have hTurns : (r.rotationsLocal ++ r.rotationsRemote).map LinkValue.int =
        [a, b, c, a', b', c'].map fun v => .int (v.getD 0) := by
      rw [hLocal, hRemote]
      rfl
    have hBasis : basisField newer (.member randomBasisNone) = .ok (.member randomBasisNone) := by
      rw [basisField, hNewer]
      rfl
    cases hChosen : r.randomLocal <;> cases hChosen' : r.randomRemote
    · have hFree : Unchosen .measure r := .inr ⟨hChosen, hChosen'⟩
      rw [if_pos hFree]
      simp only [convert, LinkRequest.kind, hBasis, converted, hUnit, hTime, hTurns]
      rfl
    all_goals
      have hChoice : ¬ Unchosen .measure r := by simp [Unchosen, hChosen, hChosen']
      simp only [convert, LinkRequest.kind, hBasis, if_neg hChoice]
      rfl

/-
  The parameters of a request to keep or to measure pairs reach the link layer, with defaults for
  what is not given. The request can be converted exactly if its pairs are kept or no set of bases
  is given: such a set stands in the request as a number, where a member of an enumeration is
  wanted. The newer interface has the same member for no set.
-/
theorem parameters_converted_iff
    {s : Node}
    {sub : Nat}
    {app remote socket arguments results : Int}
    {qubits : Option Int}
    {kind : PairKind}
    {r : PairRequest}
    {x y z x' y' z' : Int}
    {newer : Member → Option Member}
    (hNewer : newer randomBasisNone = some randomBasisNone)
    (hKind : kind = .keep ∨ kind = .measure)
    (hLocal : r.rotationsLocal = [x, y, z])
    (hRemote : r.rotationsRemote = [x', y', z'])
    (hStack : s.hasStack = true)
    (hArguments : effect (demandArray app arguments) s = (.ok (r.arguments kind), s))
    (hQubits : kind = .keep → ∃ address ids, qubits = some address ∧
        effect (demandArray app address) s = (.ok ids, s) ∧ ids.length = r.number) :
    ∃ q t, effect (createPairs sub app remote socket qubits arguments results) s = (.ok (), t) ∧
      t.events = s.events ++ [.request q] ∧
      LinkRequest.convert (.create q) newer =
        if Unchosen kind r then .ok (converted kind r remote socket) else .error .noAttribute := by
  rcases ofArguments_arguments remote socket hKind hLocal hRemote hNewer with
    ⟨q, hRequest, hKeep, hNumber, hConvert⟩
  have hEnd : effect (createPairs sub app remote socket qubits arguments results) s = effect (do
      emit (.request q)
      pushTask true (remote, q.purpose) ⟨sub, results, qubits, q.number, q.number⟩) s := by
    simp only [createPairs, demandStack, effect_bind, effect_get, hStack, hArguments, effect_lift,
      hRequest, Bool.not_true, Bool.false_eq_true, if_false, effect_pure]
    by_cases hKept : kind = .keep
    · rcases hQubits hKept with ⟨address, ids, rfl, hIds, hCount⟩
      rw [if_pos (hKeep.mpr hKept)]
      simp [effect_bind, hIds, hNumber, hCount, demand]
    · rw [if_neg fun hOther => hKept (hKeep.mp hOther), effect_bind]
  exact ⟨q, _, hEnd.trans rfl, rfl, hConvert⟩

-- A node with an application and an array that holds the arguments of a request.
def informed (kind : PairKind) (r : PairRequest) : Node :=
  { Node.fresh "alice" 0 .vanilla false true with
    heap := ⟨#[r.arguments kind]⟩
    arrays := [(0, [(0, 0)])] }

-- A request for three pairs that are to be measured in other bases.
def measuringThree : PairRequest :=
  { one 1 0 with number := 3, maxTime := 25, rotationsLocal := [0, 24, 8] }

theorem parameters_converted_iff_three :
    ∃ q t, effect (createPairs 0 0 1 0 none 0 1) (informed .measure measuringThree) = (.ok (), t) ∧
      t.events = [.request q] ∧
      LinkRequest.convert (.create q) = .ok (converted .measure measuringThree 1 0) := by
  have hArguments : effect (demandArray 0 0) (informed .measure measuringThree) =
      (.ok (measuringThree.arguments .measure), informed .measure measuringThree) := rfl
  exact parameters_converted_iff rfl (.inr rfl) rfl rfl rfl hArguments (by rintro ⟨⟩)

-- A request with a set of bases to choose from cannot be converted.
theorem basis_unconverted :
    let r := { PairRequest.one 1 0 with randomLocal := some 1 }
    let t := (effect (createPairs 0 0 1 0 none 0 1) (informed .measure r)).2
    ∃ q, t.events = [.request q] ∧ q.randomLocal = .int 1 ∧
      LinkRequest.convert (.create q) = .error .noAttribute :=
  ⟨_, rfl, rfl, rfl⟩

end QuantumNode.Node
