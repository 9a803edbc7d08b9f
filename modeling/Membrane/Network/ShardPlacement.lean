import Membrane.Network.RingLaws

/-!
# The shard table and the ring

The shard table remembers the owner and the replicas of every content it was asked for.
When a node joins or leaves, it looks the owners up again, and it looks the replicas up again
where the owner has changed.
-/

namespace Membrane
namespace Network

open Foundation Data

inductive ShardCall where
  | addNode (nodeId : String)
  | removeNode (nodeId : String)
  | assignShard (contentHash : String)

namespace Shard

section Assigning

variable [RingPoints]

def create (hashRing : Ring) (replicaCount : Int) : Shard :=
  { hashRing := hashRing, replicaCount := replicaCount, primaryMap := Dict.empty
    replicaMap := Dict.empty }

def assignShard (s : Shard) (contentHash : String) : Except RingError String × Shard :=
  match s.primaryMap.get? contentHash with
  | some primary => (.ok primary, s)
  | none =>
    match s.hashRing.getNode contentHash with
    | .error e => (.error e, s)
    | .ok primary =>
      let assigned := { s with primaryMap := s.primaryMap.set contentHash primary }
      match s.hashRing.getNodes contentHash (s.replicaCount + 1) with
      | .error e => (.error e, assigned)
      | .ok nodes =>
        (.ok primary,
          { assigned with
            replicaMap := s.replicaMap.set contentHash nodes.tail.toFinset })

def getReplicas (s : Shard) (contentHash : String) :
    Except RingError (Finset String) × Shard :=
  match s.assignShard contentHash with
  | (.error e, assigned) => (.error e, assigned)
  | (.ok _, assigned) =>
    (.ok (assigned.replicaMap.getD contentHash ∅), assigned)

def call (s : Shard) : ShardCall -> Shard
  | .addNode nodeId => (s.addNode nodeId).2
  | .removeNode nodeId => (s.removeNode nodeId).2
  | .assignShard contentHash => (s.assignShard contentHash).2

def Follows (s : Shard) (contentHash : String) : Prop :=
  exists primary nodes,
    s.hashRing.getNode contentHash = .ok primary ∧
    s.hashRing.getNodes contentHash (s.replicaCount + 1) = .ok nodes ∧
    s.primaryMap.get? contentHash = some primary ∧
    (s.getReplicas contentHash).1 = .ok nodes.tail.toFinset

def FollowsRing (s : Shard) : Prop :=
  s.hashRing.nodeIds.Nonempty ->
    forall contentHash, contentHash ∈ s.primaryMap -> s.Follows contentHash

/-- A change of the ring that leaves the owner of a content as it was also leaves its
replicas as they were. -/
def KeepsReplicas (s : Shard) (changed : Ring) : Prop :=
  changed.nodeIds.Nonempty -> forall contentHash old,
    s.primaryMap.get? contentHash = some old -> exists primary nodes,
      changed.getNode contentHash = .ok primary ∧
      changed.getNodes contentHash (s.replicaCount + 1) = .ok nodes ∧
      (primary = old -> s.replicaMap.getD contentHash ∅ = nodes.tail.toFinset)

def StaysInPlace (s : Shard) : ShardCall -> Prop
  | .addNode nodeId => s.KeepsReplicas (s.hashRing.addNode nodeId)
  | .removeNode nodeId => s.KeepsReplicas (s.hashRing.removeNode nodeId)
  | .assignShard _ => True

/-!
# Assignments
-/

variable {s : Shard}

variable {contentHash primary : String} {nodes : List String} {next : Shard}

theorem getReplicas_of_assigned (h : s.primaryMap.get? contentHash = some primary) :
    (s.getReplicas contentHash).1 = .ok (s.replicaMap.getD contentHash ∅) := by
  have hassign : s.assignShard contentHash = (.ok primary, s) := by
    rw [assignShard, h]
  rw [getReplicas, hassign]

theorem follows_iff_of_lookups (hnode : s.hashRing.getNode contentHash = .ok primary)
    (hnodes : s.hashRing.getNodes contentHash (s.replicaCount + 1) = .ok nodes) :
    s.Follows contentHash <-> s.primaryMap.get? contentHash = some primary ∧
      s.replicaMap.getD contentHash ∅ = nodes.tail.toFinset := by
  constructor
  · intro h
    rcases h with ⟨primary', nodes', hnode', hnodes', hprimary, hreplicas⟩
    rw [hnode] at hnode'
    rw [hnodes] at hnodes'
    cases hnode'
    cases hnodes'
    rw [getReplicas_of_assigned hprimary] at hreplicas
    exact ⟨hprimary, Except.ok.inj hreplicas⟩
  · intro h
    refine ⟨primary, nodes, hnode, hnodes, h.left, ?_⟩
    rw [getReplicas_of_assigned h.left, h.right]

theorem lookups_of_getNode {r : Ring} (h : r.getNode contentHash = .ok primary)
    (other : String) (n : Int) :
    exists owner nodes, r.getNode other = .ok owner ∧
      r.getNodes other n = .ok nodes := by
  have hpoint : exists node, node ∈ r.owners contentHash := by
    rw [Ring.getNode_eq] at h
    cases howners : r.owners contentHash with
    | nil =>
      rw [howners] at h
      cases h
    | cons node rest => exact ⟨node, List.mem_cons_self⟩
  rcases hpoint with ⟨node, hnode⟩
  have hother : node ∈ r.owners other := Ring.mem_owners.mpr (Ring.mem_owners.mp hnode)
  rw [Ring.getNode_eq, Ring.getNodes_eq]
  cases howners : r.owners other with
  | nil =>
    rw [howners] at hother
    cases hother
  | cons owner rest => exact ⟨owner, _, rfl, rfl⟩

theorem assignShard_followsRing (h : s.FollowsRing) (contentHash : String) :
    (s.assignShard contentHash).2.FollowsRing := by
  unfold assignShard
  cases hassigned : s.primaryMap.get? contentHash with
  | some primary => exact h
  | none =>
    cases hnode : s.hashRing.getNode contentHash with
    | error e => exact h
    | ok primary =>
      rcases lookups_of_getNode hnode contentHash (s.replicaCount + 1) with
        ⟨owner, nodes, _, hnodes⟩
      simp only [hnodes]
      intro hring other hother
      by_cases hsame : other = contentHash
      · rw [hsame]
        refine Iff.mpr (follows_iff_of_lookups hnode hnodes) ?_
        simp [Dict.getD]
      · have hmem : other ∈ s.primaryMap := by
          rw [Dict.mem_set] at hother
          exact hother.resolve_left hsame
        rcases h hring other hmem with ⟨owner, replicas, howner, hreplicas, _⟩
        refine Iff.mpr (follows_iff_of_lookups howner hreplicas) ?_
        have hfollows := (follows_iff_of_lookups howner hreplicas).mp (h hring other hmem)
        simp only [Dict.getD, Dict.get?_set, if_neg hsame]
        exact hfollows

/-!
# Looking the owners up again
-/

/-- What a new lookup of some entries does to a table.  The replicas of a content are looked
up where its owner has changed. -/
structure Reassigned (s : Shard) (entries : List (String × String)) (next : Shard) :
    Prop where
  ring : next.hashRing = s.hashRing
  count : next.replicaCount = s.replicaCount
  others : forall contentHash, ¬ contentHash ∈ entries.map Prod.fst ->
    next.primaryMap.get? contentHash = s.primaryMap.get? contentHash ∧
      next.replicaMap.get? contentHash = s.replicaMap.get? contentHash
  kept : forall contentHash old, (contentHash, old) ∈ entries ->
    s.hashRing.getNode contentHash = .ok old ->
    next.primaryMap.get? contentHash = s.primaryMap.get? contentHash ∧
      next.replicaMap.get? contentHash = s.replicaMap.get? contentHash
  moved : forall contentHash old primary nodes, (contentHash, old) ∈ entries ->
    s.hashRing.getNode contentHash = .ok primary -> primary ≠ old ->
    s.hashRing.getNodes contentHash (s.replicaCount + 1) = .ok nodes ->
    next.primaryMap.get? contentHash = some primary ∧
      next.replicaMap.get? contentHash = some nodes.tail.toFinset

theorem reassign_reassigned (entry : String × String)
    (hnode : s.hashRing.getNode entry.1 = .ok primary)
    (hnodes : s.hashRing.getNodes entry.1 (s.replicaCount + 1) = .ok nodes) :
    exists next, s.reassign entry = .ok next ∧ s.Reassigned [entry] next := by
  rcases entry with ⟨contentHash, old⟩
  simp only at hnode hnodes
  by_cases hsame : primary = old
  · refine ⟨s, ?_, rfl, rfl, fun _ _ => ⟨rfl, rfl⟩, fun _ _ _ _ => ⟨rfl, rfl⟩, ?_⟩
    · simp only [reassign, hnode, if_pos hsame]
    · intro other old' primary' nodes' hmem hprimary hne _
      cases List.mem_singleton.mp hmem
      rw [hnode] at hprimary
      cases hprimary
      exact absurd hsame hne
  · have hreassign : s.reassign (contentHash, old) =
        .ok
          { s with
            primaryMap := s.primaryMap.set contentHash primary
            replicaMap := s.replicaMap.set contentHash nodes.tail.toFinset } := by
      simp only [reassign, hnode, if_neg hsame, hnodes]
    refine ⟨_, hreassign, rfl, rfl, ?_, ?_, ?_⟩
    · intro other hother
      have hne : other ≠ contentHash := fun h => hother (List.mem_singleton.mpr h)
      rw [Dict.get?_set, Dict.get?_set, if_neg hne, if_neg hne]
      exact ⟨rfl, rfl⟩
    · intro other old' hmem hold
      cases List.mem_singleton.mp hmem
      rw [hnode] at hold
      cases hold
      exact absurd rfl hsame
    · intro other old' primary' nodes' hmem hprimary _ hnodes'
      cases List.mem_singleton.mp hmem
      rw [hnode] at hprimary
      rw [hnodes] at hnodes'
      cases hprimary
      cases hnodes'
      rw [Dict.get?_set, Dict.get?_set, if_pos rfl, if_pos rfl]
      exact ⟨rfl, rfl⟩

theorem Reassigned.cons {entry : String × String} {rest : List (String × String)} {first : Shard}
    (h : s.Reassigned [entry] first) (hentry : ¬ entry.1 ∈ rest.map Prod.fst)
    (hrest : first.Reassigned rest next) : s.Reassigned (entry :: rest) next where
  ring := hrest.ring.trans h.ring
  count := hrest.count.trans h.count
  others := by
    intro contentHash hmem
    rw [List.map_cons, List.mem_cons, not_or] at hmem
    have hlast := hrest.others contentHash hmem.right
    have hfirst := h.others contentHash
      (fun hsingle => hmem.left (List.mem_singleton.mp hsingle))
    exact ⟨hlast.left.trans hfirst.left, hlast.right.trans hfirst.right⟩
  kept := by
    intro contentHash old hmem hnode
    rcases List.mem_cons.mp hmem with heq | hmem
    · have hlast := hrest.others contentHash (by rw [← heq] at hentry; exact hentry)
      have hfirst := h.kept contentHash old (List.mem_singleton.mpr heq) hnode
      exact ⟨hlast.left.trans hfirst.left, hlast.right.trans hfirst.right⟩
    · have hne : ¬ contentHash ∈ [entry].map Prod.fst := by
        intro hsingle
        rw [List.map_singleton, List.mem_singleton] at hsingle
        exact hentry (hsingle ▸ List.mem_map_of_mem hmem)
      have hfirst := h.others contentHash hne
      have hlast := hrest.kept contentHash old hmem (by rw [h.ring]; exact hnode)
      exact ⟨hlast.left.trans hfirst.left, hlast.right.trans hfirst.right⟩
  moved := by
    intro contentHash old primary nodes hmem hnode hne hnodes
    rcases List.mem_cons.mp hmem with heq | hmem
    · have hlast := hrest.others contentHash (by rw [← heq] at hentry; exact hentry)
      have hfirst := h.moved contentHash old primary nodes (List.mem_singleton.mpr heq) hnode
        hne hnodes
      exact ⟨hlast.left.trans hfirst.left, hlast.right.trans hfirst.right⟩
    · exact hrest.moved contentHash old primary nodes hmem (by rw [h.ring]; exact hnode) hne
        (by rw [h.ring, h.count]; exact hnodes)

theorem reassignAll_reassigned (entries : List (String × String))
    (hnodup : (entries.map Prod.fst).Nodup)
    (hlookups : forall contentHash, exists primary nodes,
      s.hashRing.getNode contentHash = .ok primary ∧
        s.hashRing.getNodes contentHash (s.replicaCount + 1) = .ok nodes) :
    exists next, reassignAll entries s = .ok next ∧ s.Reassigned entries next := by
  induction entries generalizing s with
  | nil =>
    refine ⟨s, rfl, rfl, rfl, fun _ _ => ⟨rfl, rfl⟩, ?_, ?_⟩
    · intro contentHash old hmem
      cases hmem
    · intro contentHash old primary nodes hmem
      cases hmem
  | cons entry rest ih =>
    rw [List.map_cons, List.nodup_cons] at hnodup
    rcases hlookups entry.1 with ⟨primary, nodes, hnode, hnodes⟩
    rcases reassign_reassigned entry hnode hnodes with ⟨first, hfirst, hentry⟩
    rw [← hentry.ring, ← hentry.count] at hlookups
    rcases ih hnodup.right hlookups with ⟨next, hnext, hrest⟩
    refine ⟨next, ?_, ?_⟩
    · rw [reassignAll, hfirst]
      exact hnext
    · exact hentry.cons hnodup.left hrest

section

variable (h : s.Reassigned s.primaryMap.entries next)

include h

/-- A content is placed right by a new lookup unless its owner stayed and its replicas
changed. -/
theorem Reassigned.follows_iff {old : String} (hold : s.primaryMap.get? contentHash = some old)
    (hnode : s.hashRing.getNode contentHash = .ok primary)
    (hnodes : s.hashRing.getNodes contentHash (s.replicaCount + 1) = .ok nodes) :
    next.Follows contentHash <->
      (primary = old -> s.replicaMap.getD contentHash ∅ = nodes.tail.toFinset) := by
  have hentry := (s.primaryMap.get?_eq_some_iff contentHash old).mp hold
  have hnextNode : next.hashRing.getNode contentHash = .ok primary := by
    rw [h.ring]
    exact hnode
  have hnextNodes : next.hashRing.getNodes contentHash (next.replicaCount + 1) =
      .ok nodes := by
    rw [h.ring, h.count]
    exact hnodes
  rw [follows_iff_of_lookups hnextNode hnextNodes, Dict.getD]
  by_cases hsame : primary = old
  · rw [hsame] at hnode
    have hkept := h.kept contentHash old hentry hnode
    rw [hkept.left, hkept.right, hold, hsame]
    exact ⟨fun hfollows _ => hfollows.right, fun hreplicas => ⟨rfl, hreplicas rfl⟩⟩
  · have hmoved := h.moved contentHash old primary nodes hentry hnode hsame hnodes
    rw [hmoved.left, hmoved.right]
    exact iff_of_true ⟨rfl, rfl⟩ (fun heq => absurd heq hsame)

theorem Reassigned.mem_primaryMap (hmem : contentHash ∈ next.primaryMap) :
    exists old, s.primaryMap.get? contentHash = some old := by
  rw [← Dict.mem_iff_exists_get?]
  by_contra habsent
  have hothers := h.others contentHash habsent
  rw [(Dict.get?_eq_none_iff _ _).mpr habsent, Dict.get?_eq_none_iff] at hothers
  exact hothers.left hmem

theorem Reassigned.followsRing_iff
    (hlookups : forall contentHash, exists primary nodes,
      s.hashRing.getNode contentHash = .ok primary ∧
        s.hashRing.getNodes contentHash (s.replicaCount + 1) = .ok nodes) :
    next.FollowsRing <-> s.KeepsReplicas s.hashRing := by
  constructor
  · intro hfollows hring contentHash old hold
    rcases hlookups contentHash with ⟨primary, nodes, hnode, hnodes⟩
    refine ⟨primary, nodes, hnode, hnodes, ?_⟩
    apply (h.follows_iff hold hnode hnodes).mp
    have hmem : contentHash ∈ next.primaryMap := by
      by_cases hsame : primary = old
      · rw [hsame] at hnode
        have hkept := h.kept contentHash old
          ((s.primaryMap.get?_eq_some_iff contentHash old).mp hold) hnode
        rw [hold] at hkept
        exact Dict.mem_of_get? hkept.left
      · exact Dict.mem_of_get? (h.moved contentHash old primary nodes
          ((s.primaryMap.get?_eq_some_iff contentHash old).mp hold) hnode hsame hnodes).left
    exact hfollows (by rw [h.ring]; exact hring) contentHash hmem
  · intro hkeeps hring contentHash hmem
    rw [h.ring] at hring
    rcases h.mem_primaryMap hmem with ⟨old, hold⟩
    rcases hkeeps hring contentHash old hold with ⟨primary, nodes, hnode, hnodes, hreplicas⟩
    exact (h.follows_iff hold hnode hnodes).mpr hreplicas

end

theorem after_rebalance_of_error
    (h : forall contentHash primary, s.hashRing.getNode contentHash ≠ .ok primary) :
    s.after s.rebalance = s := by
  unfold rebalance
  cases s.primaryMap.entries with
  | nil => rfl
  | cons entry rest =>
    rw [reassignAll, reassign]
    cases hnode : s.hashRing.getNode entry.1 with
    | ok primary => exact absurd hnode (h entry.1 primary)
    | error e => rfl

/-- After a change of the ring the table follows it exactly if no content kept its owner and
got other replicas. -/
theorem after_rebalance_followsRing_iff (s : Shard) :
    (s.after s.rebalance).FollowsRing <-> s.KeepsReplicas s.hashRing := by
  by_cases hanswers : exists contentHash primary,
      s.hashRing.getNode contentHash = .ok primary
  · rcases hanswers with ⟨contentHash, primary, hnode⟩
    have hlookups := fun other => lookups_of_getNode hnode other (s.replicaCount + 1)
    rcases reassignAll_reassigned s.primaryMap.entries s.primaryMap.nodup hlookups with
      ⟨next, hnext, hreassigned⟩
    rw [rebalance, hnext]
    exact hreassigned.followsRing_iff hlookups
  · have hnone : forall contentHash primary,
        s.hashRing.getNode contentHash ≠ .ok primary :=
      fun contentHash primary hnode => hanswers ⟨contentHash, primary, hnode⟩
    rw [after_rebalance_of_error hnone]
    constructor
    · intro hfollows hring contentHash old hold
      rcases hfollows hring contentHash (Dict.mem_of_get? hold) with ⟨primary, _, hnode, _⟩
      exact absurd hnode (hnone contentHash primary)
    · intro hkeeps hring contentHash hmem
      rcases (Dict.mem_iff_exists_get? _ _).mp hmem with ⟨old, hold⟩
      rcases hkeeps hring contentHash old hold with ⟨primary, _, hnode, _⟩
      exact absurd hnode (hnone contentHash primary)

theorem call_followsRing_iff (h : s.FollowsRing) (c : ShardCall) :
    (s.call c).FollowsRing <-> s.StaysInPlace c := by
  cases c with
  | addNode nodeId =>
    exact after_rebalance_followsRing_iff { s with hashRing := s.hashRing.addNode nodeId }
  | removeNode nodeId =>
    exact after_rebalance_followsRing_iff { s with hashRing := s.hashRing.removeNode nodeId }
  | assignShard contentHash =>
    exact iff_of_true (assignShard_followsRing h contentHash) trivial

/-- In a run of calls the table follows the ring in every state exactly if every call that
changes the ring keeps the replicas of the contents whose owner it keeps. -/
theorem run_followsRing_iff (hashRing : Ring) (replicaCount : Int) (calls : List ShardCall) :
    Throughout call FollowsRing (create hashRing replicaCount) calls <->
      Along call StaysInPlace (create hashRing replicaCount) calls := by
  have hstart : (create hashRing replicaCount).FollowsRing := by
    intro _ contentHash hmem
    exact absurd hmem (Dict.not_mem_empty contentHash)
  exact throughout_iff_along (fun _ => True) FollowsRing (fun _ _ => True) StaysInPlace
    (fun _ _ _ _ => trivial) (fun _ c _ hfollows _ => call_followsRing_iff hfollows c)
    trivial hstart (along_of_forall (fun _ _ => trivial) _ calls)

end Assigning

end Shard

/-!
# Replicas that are not looked up again
-/

section Joining

attribute [local instance] RingDigest.verbatim

def assignedShard : Shard :=
  run Shard.call (Shard.create (Ring.create 1) 2) [.addNode "a", .assignShard "h"]

def joinedRing : Ring := assignedShard.hashRing.addNode "b"

theorem joinedRing_owners : joinedRing.owners "h" = ["a", "b"] := by
  have hpoints : joinedRing.sortedPoints = [("a:0", "a"), ("b:0", "b")] :=
    Ring.sortedPoints_eq_of_perm (by decide +kernel) (by decide +kernel)
  unfold Ring.owners Ring.walk
  rw [hpoints]
  decide +kernel

theorem joinedRing_getNode : joinedRing.getNode "h" = .ok "a" := by
  rw [Ring.getNode_eq, joinedRing_owners]

theorem joinedRing_getNodes : joinedRing.getNodes "h" 3 = .ok ["a", "b"] := by
  rw [Ring.getNodes_eq, joinedRing_owners]
  decide +kernel

theorem joinedShard_eq :
    assignedShard.call (.addNode "b") = { assignedShard with hashRing := joinedRing } := by
  have hentries : assignedShard.primaryMap.entries = [("h", "a")] := by decide +kernel
  have hrebalance : Shard.rebalance { assignedShard with hashRing := joinedRing } =
      .ok { assignedShard with hashRing := joinedRing } := by
    unfold Shard.rebalance
    rw [hentries]
    simp only [Shard.reassignAll, Shard.reassign, joinedRing_getNode, if_true]
  show Shard.after _ (Shard.rebalance { assignedShard with hashRing := joinedRing }) = _
  rw [hrebalance]
  rfl

theorem joinedShard_not_followsRing :
    joinedRing.getNodes "h" 3 = .ok ["a", "b"] ∧
      ((assignedShard.call (.addNode "b")).getReplicas "h").1 = .ok ∅ ∧
      ¬ Throughout Shard.call Shard.FollowsRing (Shard.create (Ring.create 1) 2)
        [.addNode "a", .assignShard "h", .addNode "b"] := by
  have hreplicas : ((assignedShard.call (.addNode "b")).getReplicas "h").1 =
      .ok ∅ := by
    rw [joinedShard_eq]
    decide +kernel
  refine ⟨joinedRing_getNodes, hreplicas, ?_⟩
  intro h
  have hlast : (assignedShard.call (.addNode "b")).FollowsRing := h _ (List.prefix_refl _)
  have hring : (assignedShard.call (.addNode "b")).hashRing.nodeIds.Nonempty := by
    rw [joinedShard_eq]
    exact ⟨"a", by decide +kernel⟩
  have hmem : "h" ∈ (assignedShard.call (.addNode "b")).primaryMap := by
    rw [joinedShard_eq]
    decide +kernel
  rcases hlast hring "h" hmem with ⟨primary, nodes, _, hnodes, _, hrecorded⟩
  rw [hreplicas] at hrecorded
  have hcount : assignedShard.replicaCount + 1 = 3 := by decide +kernel
  rw [joinedShard_eq] at hnodes
  rw [hcount, joinedRing_getNodes] at hnodes
  cases hnodes
  exact absurd hrecorded (by decide)

end Joining

end Network
end Membrane
