import Membrane.Network.ShardPlacement

/-!
# Migration of a primary

A migration gives a content to a new owner.  It takes the leaving peer out of the recorded
replicas, enters the new owner among them, and then records the owner.  Where it is given
callbacks for the transfer and for its verification, both must succeed first.  A hand-off
ends in a migration without callbacks.

What a migration does to the primary flags of a node is not part of the shard table.
-/

namespace Membrane
namespace Network

open Foundation Data

inductive CallbackResult where
  | returned (value : Bool)
  | raised

def CallbackResult.succeeded : CallbackResult -> Bool
  | returned value => value
  | raised => false

/-- The verification is only asked for behind a transfer. -/
def migrationAllowed (pull verify : Option CallbackResult) : Bool :=
  match pull with
  | none => true
  | some pulled => pulled.succeeded && verify.all CallbackResult.succeeded

variable {leavingPeer localNodeId contentHash primary : String}

namespace Shard

def rehomedReplicas (replicas : Finset String) (leavingPeer localNodeId : String) :
    Finset String :=
  if ¬ localNodeId ∈ replicas.erase leavingPeer ∧ localNodeId ≠ leavingPeer then
    insert localNodeId (replicas.erase leavingPeer)
  else replicas.erase leavingPeer

/-- A content without recorded replicas gets none: the set that is edited is not kept. -/
def rehome (s : Shard) (contentHash leavingPeer localNodeId : String) : Shard :=
  { s with
    primaryMap := s.primaryMap.set contentHash localNodeId
    replicaMap :=
      match s.replicaMap.get? contentHash with
      | none => s.replicaMap
      | some replicas =>
        s.replicaMap.set contentHash (rehomedReplicas replicas leavingPeer localNodeId) }

def migratePrimary (s : Shard) (contentHash leavingPeer localNodeId : String)
    (pull verify : Option CallbackResult) : Bool × Shard :=
  if migrationAllowed pull verify then
    (true, s.rehome contentHash leavingPeer localNodeId)
  else (false, s)

/-- The end of a hand-off: the shard table changes when the peer has taken over. -/
def handOff (s : Shard) (contentHash nodeId peerId : String) (moved : Bool) : Bool × Shard :=
  if moved then s.migratePrimary contentHash nodeId peerId none none else (false, s)

def PrimaryApart (s : Shard) : Prop :=
  forall contentHash primary, s.primaryMap.get? contentHash = some primary ->
    ¬ primary ∈ s.replicaMap.getD contentHash ∅

variable {s : Shard}

theorem mem_rehomedReplicas {replicas : Finset String} (h : localNodeId ≠ leavingPeer) :
    localNodeId ∈ rehomedReplicas replicas leavingPeer localNodeId := by
  unfold rehomedReplicas
  split
  next hadded => exact Finset.mem_insert_self _ _
  next hkept =>
      by_contra habsent
      exact hkept ⟨habsent, h⟩

theorem not_mem_rehome {peer : String} (h : ¬ contentHash ∈ s.replicaMap) :
    ¬ peer ∈ (s.rehome contentHash leavingPeer localNodeId).replicaMap.getD contentHash ∅ := by
  have hnone := (Dict.get?_eq_none_iff _ _).mpr h
  unfold rehome Dict.getD
  simp only [hnone]
  exact Finset.notMem_empty _

theorem rehome_apart_iff (s : Shard) (contentHash leavingPeer localNodeId : String) :
    ((s.rehome contentHash leavingPeer localNodeId).primaryMap.get? contentHash ≠
        some leavingPeer ∧
      forall primary,
        (s.rehome contentHash leavingPeer localNodeId).primaryMap.get? contentHash =
          some primary ->
        ¬ primary ∈ (s.rehome contentHash leavingPeer localNodeId).replicaMap.getD
          contentHash ∅) <->
      localNodeId ≠ leavingPeer ∧ ¬ contentHash ∈ s.replicaMap := by
  have howner : (s.rehome contentHash leavingPeer localNodeId).primaryMap.get? contentHash =
      some localNodeId := Dict.get?_set_self _ _ _
  rw [howner]
  constructor
  · rintro ⟨hne, hapart⟩
    have hother : localNodeId ≠ leavingPeer := fun h => hne (congrArg some h)
    refine ⟨hother, ?_⟩
    intro hmem
    obtain ⟨replicas, hreplicas⟩ := (Dict.mem_iff_exists_get? _ _).mp hmem
    refine hapart localNodeId rfl ?_
    unfold rehome Dict.getD
    simp only [hreplicas]
    rw [Dict.get?_set_self]
    exact mem_rehomedReplicas hother
  · rintro ⟨hother, habsent⟩
    exact ⟨fun h => hother (Option.some.inj h), fun _ _ => not_mem_rehome habsent⟩

theorem get?_rehome_of_ne (s : Shard) {other : String} (h : other ≠ contentHash)
    (leavingPeer localNodeId : String) :
    (s.rehome contentHash leavingPeer localNodeId).primaryMap.get? other =
        s.primaryMap.get? other ∧
      (s.rehome contentHash leavingPeer localNodeId).replicaMap.get? other =
        s.replicaMap.get? other := by
  refine ⟨Dict.get?_set_of_ne _ _ h, ?_⟩
  unfold rehome
  cases hreplicas : s.replicaMap.get? contentHash with
  | none => rfl
  | some replicas => exact Dict.get?_set_of_ne _ _ h

/-!
# Assignments of the ring
-/

section Assigning

variable [RingPoints]

theorem owner_not_mem_tail {r : Ring} {n : Int} {nodes : List String}
    (hnode : r.getNode contentHash = .ok primary)
    (hnodes : r.getNodes contentHash n = .ok nodes) : ¬ primary ∈ nodes.tail.toFinset := by
  rw [Ring.getNode_eq] at hnode
  rw [Ring.getNodes_eq] at hnodes
  cases howners : r.owners contentHash with
  | nil =>
    rw [howners] at hnode
    cases hnode
  | cons first rest =>
    rw [howners] at hnode hnodes
    cases hnode
    rw [if_neg (List.cons_ne_nil _ _), List.eraseDups_cons] at hnodes
    cases hnodes
    intro hmem
    have htail := List.mem_toFinset.mp hmem
    cases hcount : n.toNat with
    | zero =>
      rw [hcount] at htail
      exact absurd htail List.not_mem_nil
    | succ count =>
      rw [hcount] at htail
      have hrest := List.mem_eraseDups.mp (List.mem_of_mem_take htail)
      have hne := (List.mem_filter.mp hrest).right
      rw [beq_self_eq_true] at hne
      cases hne

section

variable (h : s.PrimaryApart)

include h

theorem PrimaryApart.assigned {nodes : List String} {n : Int}
    (hnode : s.hashRing.getNode contentHash = .ok primary)
    (hnodes : s.hashRing.getNodes contentHash n = .ok nodes) :
    PrimaryApart
      { s with
        primaryMap := s.primaryMap.set contentHash primary
        replicaMap := s.replicaMap.set contentHash nodes.tail.toFinset } := by
  intro other owner howner
  unfold Dict.getD
  rw [Dict.get?_set] at howner ⊢
  split at howner
  next hsame =>
      cases howner
      rw [if_pos hsame]
      exact owner_not_mem_tail hnode hnodes
  next hne =>
      rw [if_neg hne]
      exact h other owner howner

theorem PrimaryApart.assignShard (contentHash : String) :
    (s.assignShard contentHash).2.PrimaryApart := by
  unfold Shard.assignShard
  cases hassigned : s.primaryMap.get? contentHash with
  | some primary => exact h
  | none =>
    cases hnode : s.hashRing.getNode contentHash with
    | error e => exact h
    | ok primary =>
      obtain ⟨_, nodes, _, hnodes⟩ :=
        lookups_of_getNode hnode contentHash (s.replicaCount + 1)
      simp only [hnodes]
      exact h.assigned hnode hnodes

theorem PrimaryApart.reassign {entry : String × String} {next : Shard}
    (hnext : s.reassign entry = .ok next) : next.PrimaryApart := by
  unfold Shard.reassign at hnext
  split at hnext
  · cases hnext
  · rename_i hnode
    split at hnext
    · cases hnext
      exact h
    · split at hnext
      · cases hnext
      · rename_i hnodes
        cases hnext
        exact h.assigned hnode hnodes

theorem PrimaryApart.reassignAll {entries : List (String × String)}
    {next : Shard} (hnext : Shard.reassignAll entries s = .ok next) :
    next.PrimaryApart := by
  induction entries generalizing s with
  | nil =>
    cases hnext
    exact h
  | cons entry rest ih =>
    rw [Shard.reassignAll] at hnext
    split at hnext
    · cases hnext
    · rename_i hfirst
      exact ih (h.reassign hfirst) hnext

theorem PrimaryApart.rebalance : (s.after s.rebalance).PrimaryApart := by
  cases hnext : s.rebalance with
  | error e => exact h
  | ok next => exact h.reassignAll hnext

theorem PrimaryApart.call (c : ShardCall) : (s.call c).PrimaryApart := by
  cases c with
  | addNode nodeId =>
    have hjoined : PrimaryApart { s with hashRing := s.hashRing.addNode nodeId } := h
    exact hjoined.rebalance
  | removeNode nodeId =>
    have hleft : PrimaryApart { s with hashRing := s.hashRing.removeNode nodeId } := h
    exact hleft.rebalance
  | assignShard contentHash => exact h.assignShard contentHash

end

end Assigning

end Shard

/-!
# Runs
-/

inductive OwnershipCall where
  | table (shardCall : ShardCall)
  | migratePrimary (contentHash leavingPeer localNodeId : String)
      (pull verify : Option CallbackResult)
  | handOff (contentHash nodeId peerId : String) (moved : Bool)

structure Ownership where
  shard : Shard
  left : Option (String × String)

namespace Ownership

def create (hashRing : Ring) (replicaCount : Int) : Ownership where
  shard := Shard.create hashRing replicaCount
  left := none

def migrated (contentHash leavingPeer : String) (outcome : Bool × Shard) : Ownership where
  shard := outcome.2
  left := if outcome.1 then some (contentHash, leavingPeer) else none

/-- No owner is its own replica, and the peer that a migration has just taken a content
from is neither its owner nor one of its replicas. -/
structure Apart (s : Ownership) : Prop where
  primaryApart : s.shard.PrimaryApart
  left : forall contentHash leavingPeer, s.left = some (contentHash, leavingPeer) ->
    s.shard.primaryMap.get? contentHash ≠ some leavingPeer ∧
      ¬ leavingPeer ∈ s.shard.replicaMap.getD contentHash ∅

/-- A migration is of a content without recorded replicas, to another peer. -/
def Unreplicated (s : Ownership) (contentHash leavingPeer localNodeId : String) : Prop :=
  localNodeId ≠ leavingPeer ∧ ¬ contentHash ∈ s.shard.replicaMap

variable {s : Ownership}

theorem Apart.primaryApart_rehome (h : s.Apart) {other : String} (hne : other ≠ contentHash)
    (hprimary : (s.shard.rehome contentHash leavingPeer localNodeId).primaryMap.get? other =
      some primary) :
    ¬ primary ∈
      (s.shard.rehome contentHash leavingPeer localNodeId).replicaMap.getD other ∅ := by
  obtain ⟨howner, hreplicas⟩ := s.shard.get?_rehome_of_ne hne leavingPeer localNodeId
  unfold Dict.getD
  rw [hreplicas]
  rw [howner] at hprimary
  exact h.primaryApart other primary hprimary

theorem Apart.migrated_iff (h : s.Apart) (contentHash leavingPeer localNodeId : String)
    (pull verify : Option CallbackResult) :
    (migrated contentHash leavingPeer
      (s.shard.migratePrimary contentHash leavingPeer localNodeId pull verify)).Apart <->
      (migrationAllowed pull verify = true ->
        s.Unreplicated contentHash leavingPeer localNodeId) := by
  unfold Shard.migratePrimary
  split
  next hallowed =>
      have hiff := s.shard.rehome_apart_iff contentHash leavingPeer localNodeId
      constructor
      · intro happart _
        exact hiff.mp ⟨(happart.left contentHash leavingPeer rfl).left,
          happart.primaryApart contentHash⟩
      · intro hfree
        obtain ⟨hleft, howner⟩ := hiff.mpr (hfree hallowed)
        constructor
        · intro other primary hprimary
          by_cases hsame : other = contentHash
          · rw [hsame] at hprimary ⊢
            exact howner primary hprimary
          · exact h.primaryApart_rehome hsame hprimary
        · intro other peer heq
          cases heq
          exact ⟨hleft, Shard.not_mem_rehome (hfree hallowed).right⟩
  next hrefused =>
      exact ⟨fun _ hallowed => absurd hallowed hrefused,
        fun _ => ⟨h.primaryApart, fun _ _ hnone => (nomatch hnone)⟩⟩

section Running

variable [RingPoints]

def call (s : Ownership) : OwnershipCall -> Ownership
  | .table shardCall => { shard := s.shard.call shardCall, left := none }
  | .migratePrimary contentHash leavingPeer localNodeId pull verify =>
    migrated contentHash leavingPeer
      (s.shard.migratePrimary contentHash leavingPeer localNodeId pull verify)
  | .handOff contentHash nodeId peerId moved =>
    migrated contentHash nodeId (s.shard.handOff contentHash nodeId peerId moved)

/-- Every migration that goes through is of a content without recorded replicas, to a
peer other than the leaving one. -/
def MovesUnreplicated (s : Ownership) : OwnershipCall -> Prop
  | .table _ => True
  | .migratePrimary contentHash leavingPeer localNodeId pull verify =>
    migrationAllowed pull verify = true ->
      s.Unreplicated contentHash leavingPeer localNodeId
  | .handOff contentHash nodeId peerId moved =>
    moved = true -> s.Unreplicated contentHash nodeId peerId

theorem Apart.call_iff (h : s.Apart) (c : OwnershipCall) :
    (s.call c).Apart <-> s.MovesUnreplicated c := by
  cases c with
  | table shardCall =>
    exact ⟨fun _ => trivial,
      fun _ => ⟨h.primaryApart.call shardCall, fun _ _ hnone => (nomatch hnone)⟩⟩
  | migratePrimary contentHash leavingPeer localNodeId pull verify =>
    exact h.migrated_iff contentHash leavingPeer localNodeId pull verify
  | handOff contentHash nodeId peerId moved =>
    cases moved with
    | false =>
      exact ⟨fun _ hmoved => (nomatch hmoved),
        fun _ => ⟨h.primaryApart, fun _ _ hnone => (nomatch hnone)⟩⟩
    | true => exact h.migrated_iff contentHash nodeId peerId none none

/-- Owners and replicas stay apart in exactly the runs where every migration is of a
content without recorded replicas, to another peer than the leaving one. -/
theorem run_apart_iff (hashRing : Ring) (replicaCount : Int) (calls : List OwnershipCall) :
    Throughout call Apart (create hashRing replicaCount) calls <->
      Along call MovesUnreplicated (create hashRing replicaCount) calls := by
  have hstart : (create hashRing replicaCount).Apart := by
    refine ⟨?_, fun _ _ hnone => (nomatch hnone)⟩
    intro contentHash primary hprimary
    exact absurd (Dict.mem_of_get? hprimary) (Dict.not_mem_empty contentHash)
  exact throughout_iff_along (fun _ => True) Apart (fun _ _ => True) MovesUnreplicated
    (fun _ _ _ _ => trivial) (fun _ c _ happart _ => happart.call_iff c)
    trivial hstart (along_of_forall (fun _ _ => trivial) _ calls)

end Running

end Ownership

section Sample

attribute [local instance] RingDigest.verbatim

def assignedThenMoved : List OwnershipCall :=
  [.table (.addNode "a"), .table (.assignShard "h"), .migratePrimary "h" "a" "b" none none]

theorem assignedThenMoved_not_apart :
    ¬ Throughout Ownership.call Ownership.Apart (Ownership.create (Ring.create 1) 2)
      assignedThenMoved := by
  intro h
  have happart := h _ (List.prefix_refl _)
  have howner : (run Ownership.call (Ownership.create (Ring.create 1) 2)
      assignedThenMoved).shard.primaryMap.get? "h" = some "b" := by decide +kernel
  have hreplica : "b" ∈ (run Ownership.call (Ownership.create (Ring.create 1) 2)
      assignedThenMoved).shard.replicaMap.getD "h" ∅ := by decide +kernel
  exact happart.primaryApart "h" "b" howner hreplica

end Sample

end Network
end Membrane
