import QuantumNode.Proofs.Node.Unshared
import QuantumNode.Session.Connection

/-
  The identifiers of applications. Connections are opened and closed, and a registry keeps which
  identifiers are in use under the name of an application. So the identifiers of one name differ,
  but two names may have the same one, also at one node.
-/

open List

namespace QuantumNode
open Allocation Registry
variable {r r' : Registry} {app node : String} {id : Int} {wanted : Option Int}
namespace Allocation

-- The first free number is the least one that is not taken.
end Allocation

namespace Registry

-- An application is entered unless its identifier is in use under its name.
theorem enter_eq :
    r.enter app wanted = if wanted.getD (firstFree (r.idsOf app)) ∈ r.idsOf app then
        .error (.session (.appIdTaken (wanted.getD (firstFree (r.idsOf app)))))
      else
        .ok (wanted.getD (firstFree (r.idsOf app)), { r with
          ids := Table.put app
            (r.idsOf app ++ [wanted.getD (firstFree (r.idsOf app))]) r.ids }) := by
  by_cases hTaken : wanted.getD (firstFree (r.idsOf app)) ∈ r.idsOf app
  · simp [enter, demand, hTaken]
  · simp [enter, demand, hTaken]

-- A new identifier is in use besides the others.
theorem idsOf_put (r : Registry) (app other : String) (ids : List Int) :
    idsOf { r with ids := Table.put app ids r.ids } other =
      if other = app then ids else r.idsOf other := by
  by_cases hOther : other = app
  · simp [idsOf, hOther]
  · simp [idsOf, hOther, Table.get?_put_of_ne hOther]

end Registry

namespace Session

-- A connection: its application, its node and its identifier.
structure Link where
  app : String
  node : String
  id : Int
  deriving DecidableEq

def link (s : Session) : Link := ⟨s.app, s.node, s.appId⟩

-- The registry and the connections that are open after any number of them were opened, at any node
-- and with any identifier, and closed, each at most once.
inductive Opened : Registry → List Link → Prop
  | none : Opened .empty []
  | opened {r : Registry} {links : List Link} {p : Plan} {s : Session} :
      Opened r links → ofPlan p r = .ok s → Opened s.registry (links ++ [s.link])
  | closed {links : List Link} {s : Session} : Opened s.registry links → s.link ∈ links →
      Opened (effect clear s).2.registry (links.erase s.link)

theorem ofPlan_ok (hPlan : ofPlan p r = .ok s) :
    ∃ r', r.enter p.app p.appId = .ok (s.appId, r') ∧ s.app = p.app ∧
      s.node = p.node.getD p.app ∧ s.registry = r'.name s.node s.appId s.app := by
  rcases Checked.binds_ok hPlan with ⟨⟨_, r'⟩, hEnter, _, _, ⟨⟩⟩
  exact ⟨r', hEnter, rfl, rfl, rfl⟩

-- The identifiers in use under a name are those of the open connections of that name, and each
-- belongs to one of them.
structure Registered (r : Registry) (links : List Link) : Prop where
  nodup : links.Nodup
  once : ∀ c ∈ links, ∀ d ∈ links, c.app = d.app → c.id = d.id → c = d
  distinct : ∀ app, (r.idsOf app).Nodup
  mem_idsOf : ∀ app id, id ∈ r.idsOf app ↔ ∃ c ∈ links, c.app = app ∧ c.id = id

namespace Registered
variable {links : List Link} {s : Session}

theorem opened (hRegistered : Registered r links) (hPlan : ofPlan p r = .ok s) :
    Registered s.registry (links ++ [s.link]) := by
  rcases ofPlan_ok hPlan with ⟨r', hEnter, hApp, _, hRegistry⟩
  rw [enter_eq] at hEnter
  split at hEnter
  · cases hEnter
  rename_i hFree
  rcases Prod.mk.inj (Except.ok.inj hEnter) with ⟨hId, rfl⟩
  rw [hId, ← hApp] at hFree hRegistry
  have hIds : ∀ other, s.registry.idsOf other =
      if other = s.app then r.idsOf s.app ++ [s.appId] else r.idsOf other := by
    intro other
    rw [hRegistry]
    exact idsOf_put r s.app other _
  have hNew : ∀ c ∈ links, c.app = s.app → c.id ≠ s.appId := by
    intro c hMember hSame hId
    exact hFree ((hRegistered.mem_idsOf _ _).mpr ⟨c, hMember, hSame, hId⟩)
  constructor
  · refine nodup_append.mpr ⟨hRegistered.nodup, by simp, ?_⟩
    rintro c hMember d hLast rfl
    rw [mem_singleton.mp hLast] at hMember
    exact hNew _ hMember rfl rfl
  · intro c hFirst d hSecond hSame hId
    rcases mem_append.mp hFirst with hFirst | hFirst
    · rcases mem_append.mp hSecond with hSecond | hSecond
      · exact hRegistered.once c hFirst d hSecond hSame hId
      · cases mem_singleton.mp hSecond
        exact absurd hId (hNew c hFirst hSame)
    · cases mem_singleton.mp hFirst
      rcases mem_append.mp hSecond with hSecond | hSecond
      · exact absurd hId.symm (hNew d hSecond hSame.symm)
      · exact (mem_singleton.mp hSecond).symm
  · intro other
    rw [hIds]
    split
    · exact nodup_append.mpr ⟨hRegistered.distinct _, by simp, by grind⟩
    · exact hRegistered.distinct other
  · intro other id
    rw [hIds]
    by_cases hOther : other = s.app
    · subst hOther
      simp [hRegistered.mem_idsOf, link, eq_comm]
    · simp [hOther, hRegistered.mem_idsOf, link, Ne.symm hOther]

theorem closed (hRegistered : Registered s.registry links) (hOpen : s.link ∈ links) :
    Registered (effect clear s).2.registry (links.erase s.link) := by
  have hIds : ∀ other, (effect clear s).2.registry.idsOf other =
      if other = s.app then (s.registry.idsOf s.app).erase s.appId
      else s.registry.idsOf other :=
    fun other => idsOf_put s.registry s.app other _
  constructor
  · exact hRegistered.nodup.erase _
  · exact fun c hFirst d hSecond =>
      hRegistered.once c (mem_of_mem_erase hFirst) d (mem_of_mem_erase hSecond)
  · intro other
    rw [hIds]
    split
    · exact (hRegistered.distinct _).erase _
    · exact hRegistered.distinct other
  · intro other _
    rw [hIds]
    by_cases hOther : other = s.app
    · subst hOther
      rw [if_pos rfl, (hRegistered.distinct _).mem_erase_iff, hRegistered.mem_idsOf]
      constructor
      · rintro ⟨hId, c, hMember, hSame, rfl⟩
        refine ⟨c, hRegistered.nodup.mem_erase_iff.mpr ⟨?_, hMember⟩, hSame, rfl⟩
        rintro rfl
        exact hId rfl
      · rintro ⟨c, hMember, hSame, rfl⟩
        rcases hRegistered.nodup.mem_erase_iff.mp hMember with ⟨hOther, hMember⟩
        exact ⟨fun hId => hOther (hRegistered.once c hMember _ hOpen hSame hId), c, hMember, hSame,
          rfl⟩
    · rw [if_neg hOther, hRegistered.mem_idsOf]
      refine exists_congr fun c => ?_
      rw [hRegistered.nodup.mem_erase_iff]
      constructor
      · rintro ⟨hMember, hSame, hId⟩
        refine ⟨⟨?_, hMember⟩, hSame, hId⟩
        rintro rfl
        exact hOther hSame.symm
      · rintro ⟨⟨_, hMember⟩, hSame, hId⟩
        exact ⟨hMember, hSame, hId⟩

end Registered

theorem Opened.registered (hOpened : Opened r links) : Registered r links := by
  induction hOpened with
  | none => exact ⟨nodup_nil, by simp, fun _ => nodup_nil, by simp [Registry.idsOf,
      Registry.empty, Table.get?]⟩
  | opened _ hPlan ih => exact ih.opened hPlan
  | closed _ hOpen ih => exact ih.closed hOpen

/-
  Of the connections that are open, no two of one application name have the same identifier. An
  identifier that is asked for is refused exactly if it is in use under the name, and the one that
  is chosen is the least that is not. So at a node where all connections are of one name their
  identifiers differ.
-/
theorem ids_unique_per_name
    {r : Registry}
    {links : List Link}
    (hOpened : Opened r links) :
    links.Pairwise (fun c d => c.app = d.app → c.id ≠ d.id) ∧
      (∀ app id, (∃ r', r.enter app (some id) = .ok (id, r')) ↔
        ∀ c ∈ links, c.app = app → c.id ≠ id) ∧
      (∀ app, ∃ (n : Nat) (r' : Registry), r.enter app none = .ok ((n : Int), r') ∧
        (∀ c ∈ links, c.app = app → c.id ≠ n) ∧
        ∀ k < n, ∃ c ∈ links, c.app = app ∧ c.id = k) ∧
      ∀ node, (∀ c ∈ links, ∀ d ∈ links, c.node = node → d.node = node → c.app = d.app) →
        links.Pairwise fun c d => c.node = node → d.node = node → c.id ≠ d.id := by
  have hRegistered := hOpened.registered
  have hTaken : ∀ app id, id ∉ r.idsOf app ↔ ∀ c ∈ links, c.app = app → c.id ≠ id := by
    intro app id
    rw [hRegistered.mem_idsOf]
    simp
  have hPairwise : links.Pairwise fun c d => c.app = d.app → c.id ≠ d.id :=
    hRegistered.nodup.imp_of_mem fun hFirst hSecond hOther hSame hId =>
      hOther (hRegistered.once _ hFirst _ hSecond hSame hId)
  refine ⟨hPairwise, fun app id => ?_, fun app => ?_, fun node hOne => ?_⟩
  · rw [← hTaken, Registry.enter_eq, Option.getD_some]
    split
    · rename_i hUsed
      simp [hUsed]
    · rename_i hFree
      simp [hFree]
  · rcases Node.exists_first_unused (r.idsOf app) with ⟨n, hFirst, hFree, hLess⟩
    refine ⟨n, { r with ids := Table.put app (r.idsOf app ++ [(n : Int)]) r.ids }, ?_,
      (hTaken app n).mp hFree, fun k hLow => (hRegistered.mem_idsOf _ _).mp (hLess k hLow)⟩
    simp only [Registry.enter_eq, Option.getD_none, Allocation.firstFree, hFirst, if_neg hFree]
  · exact hPairwise.imp_of_mem fun hFirst hSecond hIds hHere hThere =>
      hIds (hOne _ hFirst _ hSecond hHere hThere)

def planFor (app node : String) (wanted : Option Int) : Plan where
  app := app
  node := some node
  appId := wanted
  maxQubits := 5
  hardware := none
  mapped := false
  returnsArrays := true
  nodeIds := []
  reachable := true
  backend := none
  sockets := []

theorem Opened.enter (hOpened : Opened r links) (app node : String) (wanted : Option Int)
    (hEnter : r.enter app wanted = .ok (id, r')) :
    Opened (r'.name node id app) (links ++ [⟨app, node, id⟩]) := by
  have hPlan : ∃ s, ofPlan (planFor app node wanted) r = .ok s :=
    ⟨_, by simp only [ofPlan, planFor, hEnter]; rfl⟩
  rcases hPlan with ⟨s, hPlan⟩
  rcases ofPlan_ok hPlan with ⟨_, hEntered, rfl, rfl, hRegistry⟩
  cases hEnter.symm.trans hEntered
  rw [← hRegistry]
  exact hOpened.opened hPlan

-- An identifier that was given back is in use again, under one of two names.
theorem ids_unique_per_name_reopened :
    ∃ r links, Opened r links ∧
      links = [⟨"alice", "paris", 1⟩, ⟨"bob", "delft", 5⟩, ⟨"alice", "delft", 0⟩] ∧
      links.Pairwise (fun c d => c.app = d.app → c.id ≠ d.id) ∧
      (∃ r', r.enter "bob" (some 0) = .ok (0, r')) ∧
      ¬ ∃ r', r.enter "alice" (some 0) = .ok (0, r') := by
  have hAlice : Opened ⟨[("alice", [0])], [("delft", [(0, "alice")])]⟩ [⟨"alice", "delft", 0⟩] :=
    Opened.none.enter "alice" "delft" none rfl
  have hParis : Opened ⟨[("alice", [0, 1])], [("delft", [(0, "alice")]), ("paris", [(1, "alice")])]⟩
      [⟨"alice", "delft", 0⟩, ⟨"alice", "paris", 1⟩] :=
    hAlice.enter "alice" "paris" none rfl
  have hBob : Opened ⟨[("alice", [0, 1]), ("bob", [5])],
        [("delft", [(0, "alice"), (5, "bob")]), ("paris", [(1, "alice")])]⟩
      [⟨"alice", "delft", 0⟩, ⟨"alice", "paris", 1⟩, ⟨"bob", "delft", 5⟩] :=
    hParis.enter "bob" "delft" (some 5) rfl
  have hClosed : Opened ⟨[("alice", [1]), ("bob", [5])],
        [("delft", [(0, "alice"), (5, "bob")]), ("paris", [(1, "alice")])]⟩
      [⟨"alice", "paris", 1⟩, ⟨"bob", "delft", 5⟩] :=
    Opened.closed (s := { (default : Session) with
      app := "alice", node := "delft", appId := 0, registry := _ }) hBob (by simp [link])
  have hAgain := hClosed.enter "alice" "delft" none rfl
  have hUnique := ids_unique_per_name hAgain
  refine ⟨_, _, hAgain, rfl, hUnique.1, (hUnique.2.1 "bob" 0).mpr (by decide), fun hTaken => ?_⟩
  exact (hUnique.2.1 "alice" 0).mp hTaken ⟨"alice", "delft", 0⟩ (by decide) rfl rfl

-- Two applications at one node have the same identifier.
theorem ids_shared_at_node :
    ∃ r, Opened r [⟨"alice", "delft", 0⟩, ⟨"bob", "delft", 0⟩] := by
  have hAlice : Opened ⟨[("alice", [0])], [("delft", [(0, "alice")])]⟩ [⟨"alice", "delft", 0⟩] :=
    Opened.none.enter "alice" "delft" none rfl
  exact ⟨_, hAlice.enter "bob" "delft" none rfl⟩

end Session

end QuantumNode
