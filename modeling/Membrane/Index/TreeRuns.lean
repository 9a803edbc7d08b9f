import Mathlib.Data.Nat.Fib.Basic
import Membrane.Foundation.Transition
import Membrane.Index.NodeMap

/-!
# Runs of the interval tree

A run inserts fragments into an empty tree and removes hashes from it.  It remembers the
fragments that are present: the ones inserted and not removed since.
-/

namespace Membrane
namespace Index

open Foundation Data

variable {d : Nat} {f : Fragment}

namespace IntervalNode

/-!
# The nodes of a tree
-/

def subtrees : IntervalNode -> List IntervalNode
  | none => []
  | node f start stop maxEnd height left right =>
    node f start stop maxEnd height left right :: (left.subtrees ++ right.subtrees)

def depth : IntervalNode -> Nat
  | none => 0
  | node _ _ _ _ _ left right => 1 + max left.depth right.depth

/-- The node has the span of its fragment, and its key lies between the keys on its left
and the keys on its right. -/
def Ordered : IntervalNode -> Prop
  | none => True
  | node f start stop _ _ left right =>
    (start, stop) = f.identity.tokenSpan ∧
      (forall g, g ∈ left.toList -> searchKey g < searchKey f) ∧
      forall g, g ∈ right.toList -> searchKey f < searchKey g

def ends (t : IntervalNode) : Set Int :=
  fun stop => exists f, f ∈ t.toList ∧ f.identity.tokenSpan.2 = stop

structure Correct (t : IntervalNode) : Prop where
  ordered : forall s, s ∈ t.subtrees -> s.Ordered
  height_eq : forall s, s ∈ t.subtrees -> s.height = s.depth
  maxEnd_isGreatest : forall s, s ∈ t.subtrees -> IsGreatest s.ends s.maxEnd
  balanced : forall s, s ∈ t.subtrees ->
    s.balanceFactor = -1 ∨ s.balanceFactor = 0 ∨ s.balanceFactor = 1

theorem toList_spanned (f : Fragment) (left right : IntervalNode) :
    (spanned f left right).toList = left.toList ++ f :: right.toList := rfl

theorem toList_sublist {t s : IntervalNode} (h : s ∈ t.subtrees) :
    s.toList.Sublist t.toList := by
  induction t with
  | none => exact absurd h List.not_mem_nil
  | node f start stop maxEnd height left right ihl ihr =>
    rcases List.mem_cons.mp h with rfl | h
    · exact List.Sublist.refl _
    · rcases List.mem_append.mp h with h | h
      · exact (ihl h).trans (List.sublist_append_left _ _)
      · exact ((ihr h).trans (List.sublist_cons_self _ _)).trans
          (List.sublist_append_right _ _)

theorem Avl.depth_eq {t : IntervalNode} {a : Nat} (h : Avl t a) : t.depth = a := by
  induction h with
  | none => rfl
  | node f hleft hright hlow hhigh ihl ihr =>
    show 1 + max _ _ = _
    rw [ihl, ihr]

theorem Avl.fib_le {t : IntervalNode} {a : Nat} (h : Avl t a) :
    Nat.fib (a + 2) ≤ t.toList.length + 1 := by
  induction h with
  | none => exact le_rfl
  | @node f left right a b hleft hright hlow hhigh ihl ihr =>
    have hfib : Nat.fib (1 + max a b + 2) ≤ Nat.fib (a + 2) + Nat.fib (b + 2) := by
      -- The lower subtree is at most one level below the other one.
      rcases le_total a b with hab | hab
      · rw [max_eq_right hab, Nat.add_comm 1 b, Nat.fib_add_two]
        exact Nat.add_le_add_right (Nat.fib_mono (by omega)) _
      · rw [max_eq_left hab, Nat.add_comm 1 a, Nat.fib_add_two, Nat.add_comm]
        exact Nat.add_le_add_left (Nat.fib_mono (by omega)) _
    rw [toList_spanned, List.length_append, List.length_cons]
    omega

theorem Avl.of_mem_subtrees {t s : IntervalNode} (h : Avl t d) (hs : s ∈ t.subtrees) :
    exists f left right a b, s = spanned f left right ∧ Avl left a ∧ Avl right b ∧
      a ≤ b + 1 ∧ b ≤ a + 1 := by
  induction h with
  | none => exact absurd hs List.not_mem_nil
  | node f hleft hright hlow hhigh ihl ihr =>
    rcases List.mem_cons.mp hs with rfl | hs
    · exact ⟨f, _, _, _, _, rfl, hleft, hright, hlow, hhigh⟩
    · rcases List.mem_append.mp hs with hs | hs
      · exact ihl hs
      · exact ihr hs

theorem Avl.search {t : IntervalNode} (h : Avl t d) (hsorted : t.Sorted) : t.Search := by
  induction h with
  | none => trivial
  | node f hleft hright hlow hhigh ihl ihr =>
    obtain ⟨hl, hr, hbelow, habove⟩ := sorted_spanned_iff.mp hsorted
    refine search_update rfl rfl ?_ ?_ (ihl hl) (ihr hr)
    · intro g hg
      exact start_le_of_searchKey_le (hbelow g hg)
    · intro g hg
      exact start_le_of_searchKey_le (habove g hg)

theorem Avl.maxEnd_mem {t : IntervalNode} (h : Avl t d) :
    (t = IntervalNode.none ∧ t.maxEnd = 0) ∨ t.maxEnd ∈ t.ends := by
  induction h with
  | none => exact Or.inl ⟨rfl, rfl⟩
  | @node f left right a b hleft hright hlow hhigh ihl ihr =>
    right
    show max f.identity.tokenSpan.2 (max left.maxEnd right.maxEnd) ∈ _
    obtain ⟨hstart, hspan⟩ := f.identity.tokenSpan_valid
    have hself : f ∈ (spanned f left right).toList :=
      List.mem_append_right _ List.mem_cons_self
    by_cases hown : max left.maxEnd right.maxEnd ≤ f.identity.tokenSpan.2
    · rw [max_eq_left hown]
      exact ⟨f, hself, rfl⟩
    · rw [max_eq_right (by omega)]
      rcases le_total left.maxEnd right.maxEnd with hle | hle
      · rw [max_eq_right hle] at hown ⊢
        rcases ihr with ⟨_, hzero⟩ | ⟨g, hg, hstop⟩
        · omega
        · exact ⟨g, List.mem_append_right _ (List.mem_cons_of_mem _ hg), hstop⟩
      · rw [max_eq_left hle] at hown ⊢
        rcases ihl with ⟨_, hzero⟩ | ⟨g, hg, hstop⟩
        · omega
        · exact ⟨g, List.mem_append_left _ hg, hstop⟩

theorem pairwise_searchKey_lt {fragments : List Fragment} (hdistinct : Distinct fragments)
    (hsorted : fragments.Pairwise (fun f g => searchKey f ≤ searchKey g)) :
    fragments.Pairwise (fun f g => searchKey f < searchKey g) := by
  have hne : fragments.Pairwise (fun f g => f.payloadHash ≠ g.payloadHash) :=
    List.pairwise_map.mp hdistinct
  refine (hsorted.and hne).imp ?_
  rintro f g ⟨hle, hhash⟩
  refine lt_of_le_of_ne hle ?_
  intro heq
  exact hhash (congrArg Prod.snd (toLex_inj.mp heq))

theorem Avl.correct {t : IntervalNode} (h : Avl t d) (hsorted : t.Sorted)
    (hdistinct : Distinct t.toList) : t.Correct := by
  refine ⟨?_, ?_, ?_, ?_⟩ <;> intro s hs <;>
    obtain ⟨f, left, right, a, b, rfl, hleft, hright, hlow, hhigh⟩ := h.of_mem_subtrees hs
  · have hstrict := (pairwise_searchKey_lt hdistinct hsorted).sublist (toList_sublist hs)
    rw [toList_spanned, List.pairwise_append, List.pairwise_cons] at hstrict
    obtain ⟨_, ⟨habove, _⟩, hcross⟩ := hstrict
    exact ⟨rfl, fun g hg => hcross g hg f List.mem_cons_self, habove⟩
  · have hnode := Avl.node f hleft hright hlow hhigh
    rw [hnode.height_eq, hnode.depth_eq]
  · have hnode := Avl.node f hleft hright hlow hhigh
    constructor
    · rcases hnode.maxEnd_mem with ⟨hnone, _⟩ | hmem
      · cases hnone
      · exact hmem
    · rintro stop ⟨g, hg, rfl⟩
      have hsub : (spanned f left right).Sorted := hsorted.sublist (toList_sublist hs)
      exact (hnode.search hsub).stop_le_maxEnd hg
  · rw [balanceFactor_spanned, hleft.height_eq, hright.height_eq]
    omega

end IntervalNode

namespace IntervalNode

theorem toList_removeNode_perm {t : IntervalNode} (ht : t.Avl d) (h : t.Sorted)
    (hdistinct : Distinct t.toList) {start : Int} {contentHash : String}
    (hholds : t.Holds start contentHash) :
    (t.removeNode start contentHash).toList.Perm
      (t.toList.filter (fun f => f.payloadHash != contentHash)) := by
  have hperm := hashes_removeNode ht h hholds
  obtain ⟨hgone, hrest⟩ := List.nodup_cons.mp (hperm.nodup_iff.mp hdistinct)
  refine (List.perm_ext_iff_of_nodup hrest.of_map (hdistinct.of_map.filter _)).mpr ?_
  intro f
  rw [List.mem_filter, bne_iff_ne]
  constructor
  · intro hf
    exact ⟨mem_removeNode ht hf, fun hhash => hgone (List.mem_map.mpr ⟨f, hf, hhash⟩)⟩
  · rintro ⟨hf, hhash⟩
    have hmem : f.payloadHash ∈ t.hashes := List.mem_map_of_mem hf
    rcases List.mem_cons.mp (hperm.mem_iff.mp hmem) with heq | hmem
    · exact absurd heq hhash
    · obtain ⟨g, hg, hsame⟩ := List.mem_map.mp hmem
      rw [hdistinct.eq hf (mem_removeNode ht hg) hsame.symm]
      exact hg

end IntervalNode

/-!
# Runs
-/

inductive TreeCall where
  | insert (fragment : Fragment)
  | remove (contentHash : String)

structure Filled where
  tree : LinkedTree
  present : List Fragment

namespace Filled

def create : Filled where
  tree := LinkedTree.create
  present := []

def call (s : Filled) : TreeCall -> Filled
  | TreeCall.insert f =>
    { tree := s.tree.insert f, present := f :: s.present }
  | TreeCall.remove contentHash =>
    { tree := (s.tree.remove contentHash).2
      present := s.present.filter (fun f => f.payloadHash != contentHash) }

def Fresh (s : Filled) : TreeCall -> Prop
  | TreeCall.insert f => ¬ f.payloadHash ∈ s.present.map (fun g => g.payloadHash)
  | TreeCall.remove _ => True

instance (s : Filled) (treeCall : TreeCall) : Decidable (s.Fresh treeCall) :=
  match treeCall with
  | TreeCall.insert f =>
    inferInstanceAs (Decidable (¬ f.payloadHash ∈ s.present.map (fun g => g.payloadHash)))
  | TreeCall.remove _ => inferInstanceAs (Decidable True)

structure Kept (s : Filled) (t : Tree) : Prop where
  follows : s.tree.Follows t
  present : t.root.toList.Perm s.present
  distinct : Distinct s.present
  entered : forall f, f ∈ s.present -> f.payloadHash ∈ s.tree.nodeMap

theorem create_kept : create.Kept Tree.create where
  follows := LinkedTree.create_follows
  present := List.Perm.refl _
  distinct := List.nodup_nil
  entered := fun _ h => absurd h List.not_mem_nil

variable {s : Filled} {t : Tree}

theorem Kept.insert (h : s.Kept t) (hfresh : s.Fresh (TreeCall.insert f)) :
    (s.call (TreeCall.insert f)).Kept (t.insert f) where
  follows := h.follows.insert f
  present := (IntervalNode.toList_insertNode_perm f t.root).trans (h.present.cons f)
  distinct := List.nodup_cons.mpr ⟨hfresh, h.distinct⟩
  entered := by
    intro g hg
    rcases List.mem_cons.mp hg with rfl | hg
    · exact (Dict.mem_set _ _ _ _).mpr (Or.inl rfl)
    · exact (Dict.mem_set _ _ _ _).mpr (Or.inr (h.entered g hg))

theorem Kept.remove (h : s.Kept t) (contentHash : String) :
    (s.call (TreeCall.remove contentHash)).Kept (t.remove contentHash).2 := by
  have hdistinct : Distinct t.root.toList := (distinct_of_perm h.present).mpr h.distinct
  obtain ⟨d, hd⟩ := h.follows.balanced
  refine ⟨(h.follows.remove contentHash).right, ?_, h.distinct.sublist List.filter_sublist, ?_⟩
  · rcases h.follows.remove_cases contentHash with ⟨hnone, _, _, ht⟩ | ⟨start, hholds, _, ht⟩
    · rw [ht]
      refine h.present.trans (List.Perm.of_eq (List.filter_eq_self.mpr ?_).symm)
      intro f hf
      refine bne_iff_ne.mpr ?_
      rintro rfl
      exact (Dict.get?_eq_none_iff _ _).mp hnone (h.entered f hf)
    · rw [ht]
      exact (IntervalNode.toList_removeNode_perm hd h.follows.sorted hdistinct hholds).trans
        (h.present.filter _)
  · intro f hf
    obtain ⟨hf, hhash⟩ := List.mem_filter.mp hf
    show f.payloadHash ∈ (s.tree.remove contentHash).2.nodeMap
    rcases h.follows.remove_cases contentHash with ⟨_, _, hl, _⟩ | ⟨start, _, hl, _⟩
    · rw [hl]
      exact h.entered f hf
    · rw [hl]
      exact (Dict.mem_erase _ _ _).mpr
        ⟨bne_iff_ne.mp hhash, mem_foldl_set (h.entered f hf)⟩

structure Correct (s : Filled) : Prop where
  root : s.tree.root.erase.Correct
  addresses_nodup : s.tree.root.addresses.Nodup
  mem_nodeMap_iff : forall contentHash, contentHash ∈ s.tree.nodeMap <->
    contentHash ∈ s.present.map (fun f => f.payloadHash)
  nodeMap_holds : forall f, f ∈ s.present ->
    exists address, s.tree.nodeMap.get? f.payloadHash = some address ∧
      (address, f) ∈ s.tree.root.cells
  overlapping_ordered : forall start stop,
    (s.tree.root.erase.findOverlapping start stop).Pairwise
      (fun f g => IntervalNode.searchKey f < IntervalNode.searchKey g)
  mem_overlapping_iff : forall start stop f,
    f ∈ s.tree.root.erase.findOverlapping start stop <->
      f ∈ s.present ∧ f.identity.tokenSpan.1 ≤ stop ∧ start ≤ f.identity.tokenSpan.2
  overlapping_meets : forall start stop f, start ≤ stop ->
    (f ∈ s.tree.root.erase.findOverlapping start stop <->
      f ∈ s.present ∧ exists token, f.identity.tokenSpan.1 ≤ token ∧
        token ≤ f.identity.tokenSpan.2 ∧ start ≤ token ∧ token ≤ stop)

section

variable (h : s.Kept t)

include h

theorem Kept.root_eq : s.tree.root.erase = t.root :=
  h.follows.root

theorem Kept.search : s.tree.root.erase.Search := by
  obtain ⟨d, hd⟩ := h.follows.balanced
  rw [h.root_eq]
  exact hd.search h.follows.sorted

theorem Kept.mem_present_iff :
    f ∈ s.tree.root.erase.toList <-> f ∈ s.present := by
  rw [h.root_eq]
  exact h.present.mem_iff

theorem Kept.mem_overlapping_iff (start stop : Int) (f : Fragment) :
    f ∈ s.tree.root.erase.findOverlapping start stop <->
      f ∈ s.present ∧ f.identity.tokenSpan.1 ≤ stop ∧ start ≤ f.identity.tokenSpan.2 := by
  rw [IntervalNode.findOverlapping_eq h.search, List.mem_filter, h.mem_present_iff]
  unfold IntervalNode.overlaps
  rw [decide_eq_true_iff]

theorem Kept.nodeMap_holds (hf : f ∈ s.present) :
    exists address, s.tree.nodeMap.get? f.payloadHash = some address ∧
      (address, f) ∈ s.tree.root.cells := by
  rcases h.follows.entered f.payloadHash with ⟨hnone, _⟩ | ⟨cell, hcell, hhash, hget, _⟩
  · exact absurd (h.entered f hf) ((Dict.get?_eq_none_iff _ _).mp hnone)
  · refine ⟨cell.1, hget, ?_⟩
    have hmem : cell.2 ∈ s.present := by
      rw [← h.mem_present_iff, LinkedNode.toList_erase]
      exact List.mem_map_of_mem hcell
    rw [← h.distinct.eq hmem hf hhash]
    exact hcell

theorem Kept.mem_nodeMap_iff (contentHash : String) :
    contentHash ∈ s.tree.nodeMap <-> contentHash ∈ s.present.map (fun f => f.payloadHash) := by
  constructor
  · intro hmem
    rcases h.follows.entered contentHash with ⟨hnone, _⟩ | ⟨cell, hcell, hhash, _⟩
    · exact absurd hmem ((Dict.get?_eq_none_iff _ _).mp hnone)
    · refine List.mem_map.mpr ⟨cell.2, ?_, hhash⟩
      rw [← h.mem_present_iff, LinkedNode.toList_erase]
      exact List.mem_map_of_mem hcell
  · intro hmem
    obtain ⟨f, hf, rfl⟩ := List.mem_map.mp hmem
    exact h.entered f hf

theorem Kept.correct : s.Correct := by
  obtain ⟨d, hd⟩ := h.follows.balanced
  have hdistinct : Distinct t.root.toList := (distinct_of_perm h.present).mpr h.distinct
  refine ⟨?_, h.follows.nodup, h.mem_nodeMap_iff, fun f hf => h.nodeMap_holds hf, ?_,
    h.mem_overlapping_iff, ?_⟩
  · rw [h.root_eq]
    exact hd.correct h.follows.sorted hdistinct
  · intro start stop
    rw [IntervalNode.findOverlapping_eq h.search, h.root_eq]
    exact (IntervalNode.pairwise_searchKey_lt hdistinct h.follows.sorted).filter _
  · intro start stop f hle
    rw [h.mem_overlapping_iff]
    obtain ⟨_, _, hspan⟩ := f.identity.tokenSpan_valid
    constructor
    · rintro ⟨hf, hstop, hstart⟩
      exact ⟨hf, max f.identity.tokenSpan.1 start, by omega, by omega, by omega, by omega⟩
    · rintro ⟨hf, token, hlow, hhigh, hstart, hstop⟩
      exact ⟨hf, by omega, by omega⟩

end

theorem run_kept {calls : List TreeCall} (hfresh : Along call Fresh create calls) :
    exists t, (run call create calls).Kept t := by
  refine run_of_along (fun s => exists t, s.Kept t) ?_ ⟨Tree.create, create_kept⟩ hfresh
  rintro s treeCall ⟨t, ht⟩ hallowed
  cases treeCall with
  | insert f => exact ⟨t.insert f, ht.insert hallowed⟩
  | remove contentHash => exact ⟨(t.remove contentHash).2, ht.remove contentHash⟩

/-- Whatever is inserted and removed, as long as no present hash is inserted again, the
tree is a balanced search tree with exact heights and ends, its map leads to the present
fragments, and an overlap query lists those that meet the interval, in order. -/
theorem run_correct (calls : List TreeCall) (hfresh : Along call Fresh create calls) :
    (run call create calls).Correct := by
  obtain ⟨t, ht⟩ := run_kept hfresh
  exact ht.correct

/-- No run makes the tree deeper than its size allows, whatever hashes it repeats: the number
of fragments grows at least like the Fibonacci numbers with the depth. -/
theorem run_depth_le (calls : List TreeCall) :
    Throughout call (fun s => Nat.fib (s.tree.root.erase.depth + 2) ≤
      s.tree.root.erase.toList.length + 1) create calls := by
  intro completed hleading
  have hfollows : exists t, (run call create completed).tree.Follows t := by
    refine throughout_of_step (fun s : Filled => exists t, s.tree.Follows t) ?_
      ⟨Tree.create, LinkedTree.create_follows⟩ calls completed hleading
    rintro s treeCall ⟨t, ht⟩
    cases treeCall with
    | insert f => exact ⟨t.insert f, ht.insert f⟩
    | remove contentHash => exact ⟨_, (ht.remove contentHash).right⟩
  obtain ⟨t, ht⟩ := hfollows
  obtain ⟨d, hd⟩ := ht.balanced
  rw [ht.root, hd.depth_eq]
  exact hd.fib_le

end Filled

section Sample

def outerWindow : Fragment :=
  Fragment.window "public" "a" "model" 0 4 validateTenantId_public nonempty_a

def innerWindow : Fragment :=
  Fragment.window "public" "b" "model" 1 0 validateTenantId_public nonempty_b

def laterWindow : Fragment :=
  Fragment.window "public" "h" "model" 2 3 validateTenantId_public nonempty_h

def windowCalls : List TreeCall :=
  [.insert innerWindow, .insert outerWindow, .insert laterWindow, .remove "b"]

theorem windowCalls_fresh : Along Filled.call Filled.Fresh Filled.create windowCalls :=
  ⟨List.not_mem_nil, by decide, by decide, trivial, trivial⟩

theorem windowCalls_correct :
    Along Filled.call Filled.Fresh Filled.create windowCalls ∧
      (run Filled.call Filled.create windowCalls).Correct :=
  ⟨windowCalls_fresh, Filled.run_correct windowCalls windowCalls_fresh⟩

end Sample

/-!
# Adjacency queries
-/

namespace Filled

def Near (position maxGap : Int) (f : Fragment) : Prop :=
  (position ≤ f.identity.tokenSpan.1 ∧ f.identity.tokenSpan.1 ≤ position + maxGap) ∨
    (position - maxGap ≤ f.identity.tokenSpan.2 ∧ f.identity.tokenSpan.2 ≤ position)

/-- Every present fragment that is near is listed, once, and nothing else is. -/
def AdjacencyExact (s : Filled) (position maxGap : Int) : Prop :=
  (s.tree.root.erase.findAdjacent position maxGap).Nodup ∧
    forall f, f ∈ s.tree.root.erase.findAdjacent position maxGap <->
      f ∈ s.present ∧ Near position maxGap f

variable {s : Filled} {t : Tree}

theorem near_iff {position maxGap : Int} :
    Near position maxGap f <->
      IntervalNode.startsNear position maxGap f ∨ IntervalNode.endsNear position maxGap f := by
  unfold Near IntervalNode.startsNear IntervalNode.endsNear
  rw [decide_eq_true_iff, decide_eq_true_iff]
  omega

theorem Kept.mem_adjacent_iff (h : s.Kept t) (position maxGap : Int) (f : Fragment) :
    f ∈ s.tree.root.erase.findAdjacent position maxGap <->
      f ∈ s.present ∧ Near position maxGap f := by
  rw [(IntervalNode.findAdjacent_perm h.search position maxGap).mem_iff,
    IntervalNode.mem_adjacent, h.mem_present_iff, near_iff]

theorem Kept.adjacent_nodup_iff (h : s.Kept t) {position maxGap : Int} (hgap : 0 ≤ maxGap) :
    (s.tree.root.erase.findAdjacent position maxGap).Nodup <->
      forall f, f ∈ s.present -> f.identity.tokenSpan ≠ (position, position) := by
  have hdistinct : Distinct s.tree.root.erase.toList := by
    rw [h.root_eq]
    exact (distinct_of_perm h.present).mpr h.distinct
  rw [(IntervalNode.findAdjacent_perm h.search position maxGap).nodup_iff,
    IntervalNode.adjacent, List.nodup_append]
  constructor
  · rintro ⟨_, _, hcross⟩ f hf hspan
    rw [← h.mem_present_iff] at hf
    refine hcross f (List.mem_filter.mpr ⟨hf, ?_⟩) f (List.mem_filter.mpr ⟨hf, ?_⟩) rfl
    · unfold IntervalNode.startsNear
      rw [hspan, decide_eq_true_iff]
      omega
    · unfold IntervalNode.endsNear
      rw [hspan, decide_eq_true_iff]
      omega
  · intro hwide
    refine ⟨hdistinct.of_map.filter _, hdistinct.of_map.filter _, ?_⟩
    rintro f hf g hg rfl
    obtain ⟨hmem, hstarts⟩ := List.mem_filter.mp hf
    obtain ⟨_, hends⟩ := List.mem_filter.mp hg
    obtain ⟨hafter, _⟩ := of_decide_eq_true hstarts
    obtain ⟨hbefore, _⟩ := of_decide_eq_true hends
    obtain ⟨_, _, hspan⟩ := f.identity.tokenSpan_valid
    refine hwide f (h.mem_present_iff.mp hmem) (Prod.ext ?_ ?_)
    · omega
    · omega

/-- A query is exact when no present fragment covers the position and nothing else. -/
theorem adjacencyExact_iff (calls : List TreeCall) (hfresh : Along call Fresh create calls)
    (position maxGap : Int) (hgap : 0 ≤ maxGap) :
    (run call create calls).AdjacencyExact position maxGap <->
      forall f, f ∈ (run call create calls).present ->
        f.identity.tokenSpan ≠ (position, position) := by
  obtain ⟨t, ht⟩ := run_kept hfresh
  constructor
  · rintro ⟨hnodup, _⟩
    exact (ht.adjacent_nodup_iff hgap).mp hnodup
  · intro hwide
    exact ⟨(ht.adjacent_nodup_iff hgap).mpr hwide, ht.mem_adjacent_iff position maxGap⟩

end Filled

section Sample

theorem windowCalls_adjacencyExact :
    Along Filled.call Filled.Fresh Filled.create windowCalls ∧
      (run Filled.call Filled.create windowCalls).AdjacencyExact 1 1 := by
  refine ⟨windowCalls_fresh,
    (Filled.adjacencyExact_iff windowCalls windowCalls_fresh 1 1 zero_le_one).mpr ?_⟩
  decide

/-- The window of one token, asked for at its own position. -/
theorem innerWindow_not_adjacencyExact :
    Along Filled.call Filled.Fresh Filled.create [.insert innerWindow] ∧
      ¬ (run Filled.call Filled.create [.insert innerWindow]).AdjacencyExact 1 0 := by
  refine ⟨⟨List.not_mem_nil, trivial⟩, ?_⟩
  rintro ⟨hnodup, _⟩
  exact (List.nodup_cons.mp hnodup).left List.mem_cons_self

end Sample

end Index
end Membrane
