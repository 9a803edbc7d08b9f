import Mathlib.Data.Finset.Card
import Membrane.Foundation.Circle
import Membrane.Foundation.Transition
import Membrane.Network.Ring

/-!
# Laws of the hash ring

A ring is changed by adding and removing nodes.  What a lookup answers depends on the nodes
that are on the ring in the end, a node that joins only takes contents over, and a node that
leaves only makes room for the next ones.

Points are the digests of texts made of the name of a node and a number.  The laws need that
the digests of the texts in use are different.
-/

namespace Membrane
namespace Network

open Foundation Data

variable {nodes : List String}

namespace Ring

section Lookups

variable {r r' : Ring}

/-!
# The points in order
-/

variable {node x contentHash : String}

theorem mem_sortedPoints {key : String} :
    (key, node) ∈ r.sortedPoints <-> r.ring.get? key = some node := by
  unfold sortedPoints
  rw [(List.mergeSort_perm _ _).mem_iff, Dict.get?_eq_some_iff]

theorem pairwise_sortedPoints (r : Ring) :
    r.sortedPoints.Pairwise (fun x y => x.1 < y.1) := by
  have hle : r.sortedPoints.Pairwise (fun x y => x.1 ≤ y.1) := by
    have hsorted : r.sortedPoints.Pairwise (fun x y => decide (x.1 ≤ y.1) = true) := by
      apply List.pairwise_mergeSort
      · intro x y z hxy hyz
        exact decide_eq_true (le_trans (of_decide_eq_true hxy) (of_decide_eq_true hyz))
      · intro x y
        rw [Bool.or_eq_true, decide_eq_true_iff, decide_eq_true_iff]
        exact le_total x.1 y.1
    exact hsorted.imp of_decide_eq_true
  have hne : r.sortedPoints.Pairwise (fun x y => x.1 ≠ y.1) := by
    rw [← List.pairwise_map (f := Prod.fst) (R := fun a b => a ≠ b)]
    exact ((List.mergeSort_perm _ _).map Prod.fst).nodup_iff.mpr r.ring.nodup
  exact (hle.and hne).imp (fun h => lt_of_le_of_ne h.left h.right)

theorem sortedPoints_eq (h : forall key, r.ring.get? key = r'.ring.get? key) :
    r.sortedPoints = r'.sortedPoints := by
  apply eq_of_sorted r.pairwise_sortedPoints r'.pairwise_sortedPoints
  intro point
  rcases point with ⟨key, node⟩
  rw [mem_sortedPoints, mem_sortedPoints, h]

theorem sortedPoints_eq_of_perm {points : List (String × String)}
    (h : points.Pairwise (fun x y => x.1 < y.1)) (hperm : points.Perm r.ring.entries) :
    r.sortedPoints = points := by
  apply eq_of_sorted r.pairwise_sortedPoints h
  intro point
  rw [sortedPoints, (List.mergeSort_perm _ _).mem_iff, hperm.mem_iff]

theorem sortedPoints_filter
    (h : forall key node, r'.ring.get? key = some node <->
      r.ring.get? key = some node ∧ node ≠ x) :
    r'.sortedPoints = r.sortedPoints.filter (fun point => decide (point.2 ≠ x)) := by
  apply eq_of_sorted r'.pairwise_sortedPoints
    (r.pairwise_sortedPoints.sublist List.filter_sublist)
  intro point
  rcases point with ⟨key, node⟩
  rw [List.mem_filter, mem_sortedPoints, mem_sortedPoints, h, decide_eq_true_iff]

/-!
# The walk of a lookup
-/

variable [RingPoints]

theorem walk_eq (r : Ring) (contentHash : String) :
    r.walk contentHash =
      around r.sortedPoints (RingPoints.content (splitKey contentHash).2) := by
  rfl

def owners (r : Ring) (contentHash : String) : List String :=
  (r.walk contentHash).map Prod.snd

theorem mem_owners :
    node ∈ r.owners contentHash <-> exists key, r.ring.get? key = some node := by
  unfold owners
  rw [walk_eq, List.mem_map]
  constructor
  · intro h
    rcases h with ⟨point, hpoint, hnode⟩
    rw [mem_around] at hpoint
    rw [← hnode]
    exact ⟨point.1, mem_sortedPoints.mp hpoint⟩
  · intro h
    rcases h with ⟨key, hkey⟩
    exact ⟨(key, node), mem_around.mpr (mem_sortedPoints.mpr hkey), rfl⟩

theorem getNode_eq (r : Ring) (contentHash : String) :
    r.getNode contentHash =
      match r.owners contentHash with
      | [] => .error .emptyRing
      | first :: _ => .ok first := by
  unfold getNode owners
  cases r.walk contentHash with
  | nil => rfl
  | cons first rest => rfl

theorem getNodes_eq (r : Ring) (contentHash : String) (n : Int) :
    r.getNodes contentHash n =
      if r.owners contentHash = [] then .error .emptyRing
      else .ok ((r.owners contentHash).eraseDups.take n.toNat) := by
  unfold getNodes owners
  cases r.walk contentHash with
  | nil => rfl
  | cons first rest => rfl

theorem owners_filter
    (h : forall key node, r'.ring.get? key = some node <->
      r.ring.get? key = some node ∧ node ≠ x)
    (contentHash : String) :
    r'.owners contentHash = (r.owners contentHash).filter (fun node => decide (node ≠ x)) := by
  unfold owners
  rw [walk_eq, sortedPoints_filter h, around_filter r.pairwise_sortedPoints, List.filter_map]
  rfl

theorem Sound.mem_owners_iff (h : r.Sound) (hvirtual : 0 < r.virtualNodes) :
    node ∈ r.owners contentHash <-> node ∈ r.nodeIds := by
  rw [mem_owners]
  constructor
  · intro hnode
    rcases hnode with ⟨key, hkey⟩
    exact ((h key node).mp hkey).left
  · intro hnode
    have hpoint : RingPoints.point node 0 ∈ r.pointsOf node :=
      List.mem_map.mpr ⟨0, List.mem_range.mpr hvirtual, rfl⟩
    exact ⟨RingPoints.point node 0, (h _ node).mpr ⟨hnode, hpoint⟩⟩

theorem Sound.owners_ne_nil (h : r.Sound) (hvirtual : 0 < r.virtualNodes)
    (hnodes : r.nodeIds.Nonempty) (contentHash : String) : r.owners contentHash ≠ [] := by
  rcases hnodes with ⟨node, hnode⟩
  exact List.ne_nil_of_mem ((h.mem_owners_iff hvirtual).mpr hnode)

theorem Sound.owners_eq_nil (h : r.Sound) (hnodes : r.nodeIds = ∅) (contentHash : String) :
    r.owners contentHash = [] := by
  rw [List.eq_nil_iff_forall_not_mem]
  intro node hnode
  rcases mem_owners.mp hnode with ⟨key, hkey⟩
  have hmem := ((h key node).mp hkey).left
  rw [hnodes] at hmem
  exact Finset.notMem_empty node hmem

theorem Sound.length_eraseDups_owners (h : r.Sound) (hvirtual : 0 < r.virtualNodes)
    (contentHash : String) :
    (r.owners contentHash).eraseDups.length = r.nodeIds.card := by
  rw [← List.toFinset_card_of_nodup (nodup_eraseDups _)]
  congr 1
  ext node
  rw [List.mem_toFinset, List.mem_eraseDups, h.mem_owners_iff hvirtual]

/-!
# What the lookups answer
-/

/-- As many distinct nodes as were asked for, or all of them, with the owner first. -/
structure Answers (r : Ring) (contentHash : String) (n : Int) (nodes : List String) : Prop where
  found : r.getNodes contentHash n = .ok nodes
  nodup : nodes.Nodup
  mem : forall node, node ∈ nodes -> node ∈ r.nodeIds
  length : (nodes.length : Int) = max 0 (min n r.nodeIds.card)
  headed : 0 < n -> exists owner, r.getNode contentHash = .ok owner ∧
    nodes.head? = some owner

theorem Sound.exists_answers (h : r.Sound) (hvirtual : 0 < r.virtualNodes)
    (hnodes : r.nodeIds.Nonempty) (contentHash : String) (n : Int) :
    exists nodes, r.Answers contentHash n nodes := by
  have hne := h.owners_ne_nil hvirtual hnodes contentHash
  have hlength := h.length_eraseDups_owners hvirtual contentHash
  refine ⟨(r.owners contentHash).eraseDups.take n.toNat, ?_, ?_, ?_, ?_, ?_⟩
  · rw [getNodes_eq, if_neg hne]
  · exact (nodup_eraseDups _).sublist (List.take_sublist _ _)
  · intro node hnode
    exact (h.mem_owners_iff hvirtual).mp (List.mem_eraseDups.mp (List.mem_of_mem_take hnode))
  · rw [List.length_take, hlength]
    omega
  · intro hn
    cases howners : r.owners contentHash with
    | nil => exact absurd howners hne
    | cons owner rest =>
      refine ⟨owner, ?_, ?_⟩
      · rw [getNode_eq, howners]
      · rw [List.eraseDups_cons, List.head?_take, if_neg (by omega)]
        rfl

theorem Sound.lookups_of_empty (h : r.Sound) (hnodes : r.nodeIds = ∅) (contentHash : String)
    (n : Int) :
    r.getNode contentHash = .error .emptyRing ∧
      r.getNodes contentHash n = .error .emptyRing := by
  have howners := h.owners_eq_nil hnodes contentHash
  rw [getNode_eq, getNodes_eq, howners]
  exact ⟨rfl, rfl⟩

/-!
# A node that joins and a node that leaves
-/

theorem getNode_of_owners_filter
    (h : r.owners contentHash =
      (r'.owners contentHash).filter (fun node => decide (node ≠ x)))
    {owner : String} (howner : r'.getNode contentHash = .ok owner) :
    owner = x ∨ r.getNode contentHash = .ok owner := by
  rw [getNode_eq] at howner
  by_cases hx : owner = x
  · exact Or.inl hx
  · apply Or.inr
    split at howner
    · cases howner
    · rename_i howners
      cases howner
      rw [getNode_eq, h, howners, List.filter_cons_of_pos (by simpa using hx)]

theorem Sound.getNode_addNode (h : r.Sound) (hadded : (r.addNode x).Sound) {owner : String}
    (howner : (r.addNode x).getNode contentHash = .ok owner) :
    owner = x ∨ r.getNode contentHash = .ok owner := by
  by_cases hx : x ∈ r.nodeIds
  · rw [addNode, if_pos hx] at howner
    exact Or.inr howner
  · apply getNode_of_owners_filter _ howner
    apply owners_filter
    intro key node
    have hpoints : (r.addNode x).pointsOf node = r.pointsOf node := by
      unfold pointsOf
      rw [addNode_virtualNodes]
    rw [h key node, hadded key node, addNode_nodeIds, hpoints, Finset.mem_insert]
    constructor
    · intro hnode
      refine ⟨⟨Or.inr hnode.left, hnode.right⟩, ?_⟩
      intro hnx
      rw [hnx] at hnode
      exact hx hnode.left
    · intro hnode
      exact ⟨hnode.left.left.resolve_left hnode.right, hnode.left.right⟩

theorem Sound.get?_removeNode (h : r.Sound) (hremoved : (r.removeNode x).Sound)
    (key node : String) :
    (r.removeNode x).ring.get? key = some node <-> r.ring.get? key = some node ∧ node ≠ x := by
  have hpoints : (r.removeNode x).pointsOf node = r.pointsOf node := by
    unfold pointsOf
    rw [removeNode_virtualNodes]
  rw [h key node, hremoved key node, removeNode_nodeIds, hpoints, Finset.mem_erase]
  constructor
  · intro hnode
    exact ⟨⟨hnode.left.right, hnode.right⟩, hnode.left.left⟩
  · intro hnode
    exact ⟨⟨hnode.right, hnode.left.left⟩, hnode.left.right⟩

theorem Sound.getNodes_removeNode (h : r.Sound) (hremoved : (r.removeNode x).Sound)
    (hvirtual : 0 < r.virtualNodes) (hnodes : (r.removeNode x).nodeIds.Nonempty) {n : Int}
    (hfound : r.getNodes contentHash (n + 1) = .ok nodes) :
    (r.removeNode x).getNodes contentHash n =
      .ok ((nodes.filter (fun node => decide (node ≠ x))).take n.toNat) := by
  have hvirtual' : 0 < (r.removeNode x).virtualNodes := by
    rw [removeNode_virtualNodes]
    exact hvirtual
  rw [getNodes_eq, if_neg (hremoved.owners_ne_nil hvirtual' hnodes contentHash),
    owners_filter (h.get?_removeNode hremoved), eraseDups_filter]
  rw [getNodes_eq] at hfound
  split at hfound
  · cases hfound
  · cases hfound
    by_cases hn : 0 ≤ n
    · have hsucc : (n + 1).toNat = n.toNat + 1 := by omega
      rw [hsucc, take_filter_ne (nodup_eraseDups _)]
    · have hzero : n.toNat = 0 := by omega
      rw [hzero, List.take_zero, List.take_zero]

end Lookups

end Ring

/-!
# Histories
-/

/-- The digest that places the points and the contents. -/
class RingDigest where
  hashValue : String -> String

def virtualPoint (nodeId : String) (i : Nat) : String :=
  nodeId ++ ":" ++ toString i

instance RingDigest.points [RingDigest] : RingPoints where
  point nodeId i := RingDigest.hashValue (virtualPoint nodeId i)
  content := RingDigest.hashValue

theorem toList_virtualPoint (nodeId : String) (i : Nat) :
    (virtualPoint nodeId i).toList = nodeId.toList ++ ':' :: Nat.toDigits 10 i := by
  unfold virtualPoint
  rw [String.toList_append, String.toList_append]
  show nodeId.toList ++ [':'] ++ i.repr.toList = _
  rw [Nat.toList_repr, List.append_assoc]
  rfl

theorem eq_of_virtualPoint_eq {a b : String} {i j : Nat}
    (h : virtualPoint a i = virtualPoint b j) : a = b := by
  have hdigits : forall n, ¬ ':' ∈ Nat.toDigits 10 n := by
    intro n hmem
    have hdigit := Nat.isDigit_of_mem_toDigits (by omega) (by omega) hmem
    exact absurd hdigit (by decide)
  have hlist := congrArg (fun s => splitLast ':' s.toList) h
  simp only [toList_virtualPoint] at hlist
  rw [splitLast_append_cons _ _ (hdigits i), splitLast_append_cons _ _ (hdigits j)] at hlist
  exact String.toList_inj.mp (congrArg Prod.fst (Option.some.inj hlist))

inductive RingCall where
  | addNode (nodeId : String)
  | removeNode (nodeId : String)

def added : List RingCall -> List String
  | [] => []
  | .addNode nodeId :: rest => nodeId :: added rest
  | .removeNode _ :: rest => added rest

def pointTexts (virtualNodes : Nat) (nodes : List String) : Set String :=
  fun text => exists node i, node ∈ nodes ∧ i < virtualNodes ∧ text = virtualPoint node i

namespace Ring

variable [RingDigest]

def call (r : Ring) : RingCall -> Ring
  | .addNode nodeId => r.addNode nodeId
  | .removeNode nodeId => r.removeNode nodeId

def history (virtualNodes : Nat) (calls : List RingCall) : Ring :=
  run call (create virtualNodes) calls

def Separate (virtualNodes : Nat) (nodes : List String) : Prop :=
  forall a b i j, a ∈ nodes -> b ∈ nodes -> a ≠ b -> i < virtualNodes -> j < virtualNodes ->
    RingPoints.point a i ≠ RingPoints.point b j

variable {virtualNodes : Nat}

theorem separate_of_injOn (h : Set.InjOn RingDigest.hashValue (pointTexts virtualNodes nodes)) :
    Separate virtualNodes nodes := by
  intro a b i j ha hb hne hi hj heq
  exact hne (eq_of_virtualPoint_eq (h ⟨a, i, ha, hi, rfl⟩ ⟨b, j, hb, hj, rfl⟩ heq))

structure Built (virtualNodes : Nat) (nodes : List String) (r : Ring) : Prop where
  sound : r.Sound
  virtualNodes_eq : r.virtualNodes = virtualNodes
  nodeIds_mem : forall node, node ∈ r.nodeIds -> node ∈ nodes

theorem Built.apart {r : Ring} (h : r.Built virtualNodes nodes)
    (hseparate : Separate virtualNodes nodes) {nodeId : String} (hnode : nodeId ∈ nodes) :
    r.Apart nodeId := by
  intro other hother hne key hkey hpoint
  unfold pointsOf at hkey hpoint
  rw [h.virtualNodes_eq] at hkey hpoint
  rcases List.mem_map.mp hkey with ⟨i, hi, hikey⟩
  rcases List.mem_map.mp hpoint with ⟨j, hj, hjkey⟩
  exact hseparate nodeId other i j hnode (h.nodeIds_mem other hother) hne.symm
    (List.mem_range.mp hi) (List.mem_range.mp hj) (hikey.trans hjkey.symm)

theorem Built.addNode {r : Ring} (h : r.Built virtualNodes nodes)
    (hseparate : Separate virtualNodes nodes) {nodeId : String} (hnode : nodeId ∈ nodes) :
    (r.addNode nodeId).Built virtualNodes nodes where
  sound := addNode_sound h.sound (h.apart hseparate hnode)
  virtualNodes_eq := by
    rw [addNode_virtualNodes]
    exact h.virtualNodes_eq
  nodeIds_mem := by
    intro node hmem
    rw [addNode_nodeIds, Finset.mem_insert] at hmem
    rcases hmem with heq | hmem
    · rw [heq]
      exact hnode
    · exact h.nodeIds_mem node hmem

theorem Built.removeNode {r : Ring} (h : r.Built virtualNodes nodes)
    (hseparate : Separate virtualNodes nodes) (nodeId : String) :
    (r.removeNode nodeId).Built virtualNodes nodes where
  sound := by
    by_cases hmem : nodeId ∈ r.nodeIds
    · exact removeNode_sound h.sound (h.apart hseparate (h.nodeIds_mem nodeId hmem))
    · rw [Ring.removeNode, if_pos hmem]
      exact h.sound
  virtualNodes_eq := by
    rw [removeNode_virtualNodes]
    exact h.virtualNodes_eq
  nodeIds_mem := by
    intro node hmem
    rw [removeNode_nodeIds, Finset.mem_erase] at hmem
    exact h.nodeIds_mem node hmem.right

theorem Built.mono {others : List String} {r : Ring} (h : r.Built virtualNodes nodes)
    (hsubset : nodes ⊆ others) : r.Built virtualNodes others :=
  { h with nodeIds_mem := fun node hnode => hsubset (h.nodeIds_mem node hnode) }

theorem run_built (hseparate : Separate virtualNodes nodes) (calls : List RingCall)
    (hcalls : added calls ⊆ nodes) {r : Ring} (h : r.Built virtualNodes nodes) :
    (run call r calls).Built virtualNodes nodes := by
  induction calls generalizing r with
  | nil => exact h
  | cons first rest ih =>
    cases first with
    | addNode nodeId =>
      have hnode : nodeId ∈ nodes := hcalls List.mem_cons_self
      exact ih (fun node hmem => hcalls (List.mem_cons_of_mem _ hmem))
        (h.addNode hseparate hnode)
    | removeNode nodeId => exact ih hcalls (h.removeNode hseparate nodeId)

theorem history_built {calls : List RingCall}
    (h : Set.InjOn RingDigest.hashValue (pointTexts virtualNodes (added calls))) :
    (history virtualNodes calls).Built virtualNodes (added calls) :=
  run_built (separate_of_injOn h) calls (List.Subset.refl _)
    { sound := create_sound virtualNodes
      virtualNodes_eq := rfl
      nodeIds_mem := fun node hnode => absurd hnode (Finset.notMem_empty node) }

theorem Built.get?_eq {others : List String} {r r' : Ring} (h : r.Built virtualNodes nodes)
    (h' : r'.Built virtualNodes others) (hids : r.nodeIds = r'.nodeIds) (key : String) :
    r.ring.get? key = r'.ring.get? key := by
  apply Option.ext
  intro node
  have hpoints : r.pointsOf node = r'.pointsOf node := by
    unfold pointsOf
    rw [h.virtualNodes_eq, h'.virtualNodes_eq]
  rw [h.sound key node, h'.sound key node, hids, hpoints]

end Ring

/-!
# A small ring
-/

section Verbatim

@[reducible] def RingDigest.verbatim : RingDigest where
  hashValue text := text

attribute [local instance] RingDigest.verbatim

end Verbatim

end Network
end Membrane
