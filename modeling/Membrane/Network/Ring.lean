import Mathlib.Data.Finset.Basic
import Mathlib.Data.List.Sort
import Mathlib.Data.String.Basic
import Membrane.Data.Fragment
import Membrane.Foundation.Dict

/-!
# The hash ring and the shard table

Every node has a number of points on the ring.  The point that follows the hash of a
content belongs to its owner, and the next distinct nodes hold its replicas.  The shard
table remembers the owners it has looked up and looks them up again when a node joins or
leaves.
-/

namespace Membrane
namespace Network

open Foundation Data

/-- Where the points of a node and the contents lie on the ring. -/
class RingPoints where
  point : String -> Nat -> String
  content : String -> String

/-- The points of different nodes are different. -/
class RingHash extends RingPoints where
  point_ne : forall {a b : String} (i j : Nat), a ≠ b -> point a i ≠ point b j

inductive RingError where
  | emptyRing
  deriving DecidableEq

structure Ring where
  virtualNodes : Nat
  ring : Dict String String
  nodeIds : Finset String

variable {nodeId node : String}

namespace Ring

variable [RingPoints] (r : Ring)

def create (virtualNodes : Nat) : Ring :=
  { virtualNodes := virtualNodes, ring := Dict.empty, nodeIds := ∅ }

def pointsOf (nodeId : String) : List String :=
  (List.range r.virtualNodes).map (RingPoints.point nodeId)

def addNode (nodeId : String) : Ring :=
  if nodeId ∈ r.nodeIds then r
  else
    { r with
      nodeIds := insert nodeId r.nodeIds
      ring := r.ring.setAll (r.pointsOf nodeId) nodeId }

def removeNode (nodeId : String) : Ring :=
  if nodeId ∉ r.nodeIds then r
  else
    { r with
      nodeIds := r.nodeIds.erase nodeId
      ring := r.ring.eraseAll (r.pointsOf nodeId) }

def sortedPoints : List (String × String) :=
  r.ring.entries.mergeSort (fun x y => decide (x.1 ≤ y.1))

def walk (contentHash : String) : List (String × String) :=
  let hash := RingPoints.content (splitKey contentHash).2
  r.sortedPoints.dropWhile (fun point => decide (point.1 < hash)) ++
    r.sortedPoints.takeWhile (fun point => decide (point.1 < hash))

def getNode (contentHash : String) : Except RingError String :=
  match r.walk contentHash with
  | [] => .error .emptyRing
  | first :: _ => .ok first.2

def getNodes (contentHash : String) (n : Int) : Except RingError (List String) :=
  match r.walk contentHash with
  | [] => .error .emptyRing
  | points => .ok ((points.map Prod.snd).eraseDups.take n.toNat)

variable {r}

def Sound (r : Ring) : Prop :=
  forall key node, r.ring.get? key = some node <-> node ∈ r.nodeIds ∧ key ∈ r.pointsOf node

theorem create_sound (virtualNodes : Nat) : (create virtualNodes).Sound := by
  intro key node
  constructor
  · intro h
    cases h
  · rintro ⟨h, _⟩
    exact absurd h (Finset.notMem_empty node)

def Apart (r : Ring) (nodeId : String) : Prop :=
  forall other, other ∈ r.nodeIds -> other ≠ nodeId ->
    forall key, key ∈ r.pointsOf nodeId -> ¬ key ∈ r.pointsOf other

section

variable (nodeId : String)

@[simp] theorem addNode_virtualNodes :
    (r.addNode nodeId).virtualNodes = r.virtualNodes := by
  unfold addNode
  split_ifs <;> rfl

@[simp] theorem removeNode_virtualNodes :
    (r.removeNode nodeId).virtualNodes = r.virtualNodes := by
  unfold removeNode
  split_ifs <;> rfl

@[simp] theorem addNode_nodeIds :
    (r.addNode nodeId).nodeIds = insert nodeId r.nodeIds := by
  unfold addNode
  split_ifs with h
  · exact (Finset.insert_eq_of_mem h).symm
  · rfl

@[simp] theorem removeNode_nodeIds :
    (r.removeNode nodeId).nodeIds = r.nodeIds.erase nodeId := by
  unfold removeNode
  split_ifs with h
  · rfl
  · exact (Finset.erase_eq_of_notMem h).symm

end

theorem addNode_sound (h : r.Sound) (hapart : r.Apart nodeId) : (r.addNode nodeId).Sound := by
  unfold addNode
  split_ifs with hmem
  · exact h
  · intro key node
    show (r.ring.setAll (r.pointsOf nodeId) nodeId).get? key = some node <->
      node ∈ insert nodeId r.nodeIds ∧ key ∈ r.pointsOf node
    rw [Dict.get?_setAll, Finset.mem_insert]
    split_ifs with hkey
    · rw [Option.some.injEq]
      constructor
      · rintro rfl
        exact ⟨Or.inl rfl, hkey⟩
      · rintro ⟨hnode | hnode, hpoint⟩
        · exact hnode.symm
        · by_contra hne
          exact hapart node hnode (Ne.symm hne) key hkey hpoint
    · rw [h key node]
      constructor
      · rintro ⟨hnode, hpoint⟩
        exact ⟨Or.inr hnode, hpoint⟩
      · rintro ⟨rfl | hnode, hpoint⟩
        · exact absurd hpoint hkey
        · exact ⟨hnode, hpoint⟩

theorem removeNode_sound (h : r.Sound) (hapart : r.Apart nodeId) :
    (r.removeNode nodeId).Sound := by
  unfold removeNode
  by_cases hmem : nodeId ∉ r.nodeIds
  · rw [if_pos hmem]
    exact h
  · rw [if_neg hmem]
    intro key node
    rw [Dict.get?_eraseAll, Finset.mem_erase]
    split_ifs with hkey
    · constructor
      · intro hnone
        cases hnone
      · rintro ⟨⟨hne, hnode⟩, hpoint⟩
        exact absurd hpoint (hapart node hnode hne key hkey)
    · rw [h key node]
      constructor
      · rintro ⟨hnode, hpoint⟩
        refine ⟨⟨?_, hnode⟩, hpoint⟩
        rintro rfl
        exact hkey hpoint
      · rintro ⟨⟨_, hnode⟩, hpoint⟩
        exact ⟨hnode, hpoint⟩

theorem Sound.no_point (h : r.Sound) (hnode : node ∉ r.nodeIds) (key : String) :
    r.ring.get? key ≠ some node :=
  fun hkey => hnode ((h key node).mp hkey).left

theorem Sound.walk_ne_nil (h : r.Sound) (hnode : node ∈ r.nodeIds)
    (hvirtual : 0 < r.virtualNodes) (contentHash : String) : r.walk contentHash ≠ [] := by
  have hpoint : RingPoints.point node 0 ∈ r.pointsOf node :=
    List.mem_map.mpr ⟨0, List.mem_range.mpr hvirtual, rfl⟩
  have hentry := (r.ring.get?_eq_some_iff _ node).mp ((h _ node).mpr ⟨hnode, hpoint⟩)
  have hsorted : (RingPoints.point node 0, node) ∈ r.sortedPoints :=
    (List.mergeSort_perm _ _).mem_iff.mpr hentry
  intro hnil
  rcases List.append_eq_nil_iff.mp hnil with ⟨hdrop, htake⟩
  have hsplit : r.sortedPoints.takeWhile
        (fun point => decide (point.1 < RingPoints.content (splitKey contentHash).2)) ++
      r.sortedPoints.dropWhile
        (fun point => decide (point.1 < RingPoints.content (splitKey contentHash).2)) =
      r.sortedPoints := List.takeWhile_append_dropWhile
  rw [← hsplit, hdrop, htake] at hsorted
  exact absurd hsorted List.not_mem_nil

end Ring

theorem Ring.apart [RingHash] (r : Ring) (nodeId : String) : r.Apart nodeId := by
  intro other _ hne key hkey hother
  rcases List.mem_map.mp hkey with ⟨i, _, hi⟩
  rcases List.mem_map.mp hother with ⟨j, _, hj⟩
  exact RingHash.point_ne i j hne.symm (hi.trans hj.symm)

/-!
# The shard table
-/

structure Shard where
  hashRing : Ring
  replicaCount : Int
  primaryMap : Dict String String
  replicaMap : Dict String (Finset String)

namespace Shard

variable [RingPoints]

def reassign (s : Shard) (entry : String × String) : Except RingError Shard :=
  match s.hashRing.getNode entry.1 with
  | .error e => .error e
  | .ok primary =>
    if primary = entry.2 then .ok s
    else
      match s.hashRing.getNodes entry.1 (s.replicaCount + 1) with
      | .error e => .error e
      | .ok nodes =>
        .ok
          { s with
            primaryMap := s.primaryMap.set entry.1 primary
            replicaMap := s.replicaMap.set entry.1 nodes.tail.toFinset }

def reassignAll : List (String × String) -> Shard -> Except RingError Shard
  | [], s => .ok s
  | entry :: rest, s =>
    match s.reassign entry with
    | .error e => .error e
    | .ok next => reassignAll rest next

def rebalance (s : Shard) : Except RingError Shard :=
  reassignAll s.primaryMap.entries s

def after (s : Shard) : Except RingError Shard -> Shard
  | .error _ => s
  | .ok next => next

def addNode (s : Shard) (nodeId : String) : Except RingError Unit × Shard :=
  let joined := { s with hashRing := s.hashRing.addNode nodeId }
  (joined.rebalance.map (fun _ => ()), joined.after joined.rebalance)

def removeNode (s : Shard) (nodeId : String) : Except RingError Unit × Shard :=
  let left := { s with hashRing := s.hashRing.removeNode nodeId }
  (left.rebalance.map (fun _ => ()), left.after left.rebalance)

variable {s : Shard}

theorem reassignAll_of_node (hring : s.hashRing.Sound) (hnode : node ∈ s.hashRing.nodeIds)
    (hvirtual : 0 < s.hashRing.virtualNodes) (entries : List (String × String)) :
    exists next, reassignAll entries s = .ok next ∧ next.hashRing = s.hashRing := by
  induction entries generalizing s with
  | nil => exact ⟨s, rfl, rfl⟩
  | cons entry rest ih =>
    have hstep : exists next, s.reassign entry = .ok next ∧
        next.hashRing = s.hashRing := by
      have hwalk := hring.walk_ne_nil hnode hvirtual entry.1
      unfold reassign Ring.getNode Ring.getNodes
      cases hpoints : s.hashRing.walk entry.1 with
      | nil => exact absurd hpoints hwalk
      | cons first points =>
        simp only
        split_ifs
        · exact ⟨s, rfl, rfl⟩
        · exact ⟨_, rfl, rfl⟩
    rcases hstep with ⟨next, hnext, hsame⟩
    rw [← hsame] at hring hnode hvirtual
    rcases ih hring hnode hvirtual with ⟨last, hlast, hring'⟩
    refine ⟨last, ?_, hring'.trans hsame⟩
    unfold reassignAll
    rw [hnext]
    exact hlast

theorem addNode_hashRing (hring : s.hashRing.Sound) (hapart : s.hashRing.Apart nodeId)
    (hvirtual : 0 < s.hashRing.virtualNodes) :
    (s.addNode nodeId).1 = .ok () ∧
      (s.addNode nodeId).2.hashRing = s.hashRing.addNode nodeId := by
  have hnode : nodeId ∈ (s.hashRing.addNode nodeId).nodeIds := by
    rw [Ring.addNode_nodeIds]
    exact Finset.mem_insert_self _ _
  rcases reassignAll_of_node (s := { s with hashRing := s.hashRing.addNode nodeId })
    (Ring.addNode_sound hring hapart) hnode
    (by rw [Ring.addNode_virtualNodes]; exact hvirtual) s.primaryMap.entries with
    ⟨next, hnext, hsame⟩
  unfold addNode rebalance
  simp only [hnext]
  exact ⟨rfl, hsame⟩

theorem removeNode_hashRing (hring : s.hashRing.Sound) {other : String}
    (hapart : s.hashRing.Apart nodeId) (hother : other ∈ s.hashRing.nodeIds)
    (hne : other ≠ nodeId) (hvirtual : 0 < s.hashRing.virtualNodes) :
    (s.removeNode nodeId).1 = .ok () ∧
      (s.removeNode nodeId).2.hashRing = s.hashRing.removeNode nodeId := by
  have hnode : other ∈ (s.hashRing.removeNode nodeId).nodeIds := by
    rw [Ring.removeNode_nodeIds]
    exact Finset.mem_erase.mpr ⟨hne, hother⟩
  rcases reassignAll_of_node (s := { s with hashRing := s.hashRing.removeNode nodeId })
    (Ring.removeNode_sound hring hapart) hnode
    (by rw [Ring.removeNode_virtualNodes]; exact hvirtual) s.primaryMap.entries with
    ⟨next, hnext, hsame⟩
  unfold removeNode rebalance
  simp only [hnext]
  exact ⟨rfl, hsame⟩

end Shard

end Network
end Membrane
