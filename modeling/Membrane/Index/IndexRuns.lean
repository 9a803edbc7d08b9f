import Membrane.Index.TreeRuns

/-!
# Removal from the index

The index of the source has a fourth part, the hashes that were accessed together.  A
removal asks each part for the hash.  A repeated insertion replaces the exact entry and
adds to the list and to the tree, from which a removal takes one fragment.
-/

namespace Membrane
namespace Index

open Foundation Data

/-!
# The parts of the index
-/

def Exacts.remove (x : Exacts) (contentHash : String) : Bool × Exacts :=
  if contentHash ∈ x.entries then (true, { entries := x.entries.erase contentHash })
  else (false, x)

def Semantics.remove (s : Semantics) (contentHash : String) : Bool × Semantics :=
  if s.fragments.any (fun f => f.payloadHash == contentHash) then
    (true,
      { fragments := s.fragments.eraseP (fun f => f.payloadHash == contentHash)
        norms := s.norms.erase contentHash })
  else (false, s)

structure Coaccess where
  graph : Dict String (List String)

namespace Coaccess

def create : Coaccess where
  graph := Dict.empty

def lookup (c : Coaccess) (contentHash : String) : List String :=
  c.graph.getD contentHash []

def addNeighbor (c : Coaccess) (a b : String) : Coaccess where
  graph := c.graph.set a ((c.lookup a).insert b)

def recordAccess (c : Coaccess) (a b : String) : Coaccess :=
  if a = b then c else (c.addNeighbor a b).addNeighbor b a

def discard (graph : Dict String (List String)) (contentHash neighbor : String) :
    Dict String (List String) :=
  match graph.get? neighbor with
  | none => graph
  | some known => graph.set neighbor (known.filter (fun other => other != contentHash))

def remove (c : Coaccess) (contentHash : String) : Bool × Coaccess :=
  (!(c.lookup contentHash).isEmpty,
    { graph := (c.lookup contentHash).foldl
        (fun graph neighbor => discard graph contentHash neighbor)
        (c.graph.erase contentHash) })

end Coaccess

/-- The class `Index` of the source. -/
structure FullIndex where
  system : IndexSystem
  coAccess : Coaccess

namespace FullIndex

def create : FullIndex where
  system := IndexSystem.create
  coAccess := Coaccess.create

def insert (x : FullIndex) (f : Fragment) (locations : Finset String) : FullIndex :=
  { x with system := x.system.insert f locations }

def recordCoAccess (x : FullIndex) (a b : String) : FullIndex :=
  { x with coAccess := x.coAccess.recordAccess a b }

def coAccessNeighbors (x : FullIndex) (contentHash : String) : List String :=
  x.coAccess.lookup contentHash

def remove (x : FullIndex) (contentHash : String) : Bool × FullIndex :=
  ((x.system.exacts.remove contentHash).1 || (x.system.semantic.remove contentHash).1 ||
      (x.system.positional.remove contentHash).1 || (x.coAccess.remove contentHash).1,
    { system :=
        { exacts := (x.system.exacts.remove contentHash).2
          semantic := (x.system.semantic.remove contentHash).2
          positional := (x.system.positional.remove contentHash).2 }
      coAccess := (x.coAccess.remove contentHash).2 })

structure Cleared (x : FullIndex) (contentHash : String) : Prop where
  exactly : forall other entry, x.system.exactLookup other = some entry ->
    entry.fragment.payloadHash ≠ contentHash
  positional : forall start stop f, f ∈ x.system.positionalLookup start stop ->
    f.payloadHash ≠ contentHash
  adjacent : forall position maxGap f, f ∈ x.system.positionalAdjacent position maxGap ->
    f.payloadHash ≠ contentHash
  semantic : forall k f, f ∈ x.system.semanticLookup k -> f.payloadHash ≠ contentHash
  coAccess : forall other, ¬ contentHash ∈ x.coAccessNeighbors other

end FullIndex

/-!
# The graph of accesses
-/

variable {contentHash : String}

namespace Coaccess

variable {c : Coaccess}

def Symmetric (c : Coaccess) : Prop :=
  forall a b, b ∈ c.lookup a -> a ∈ c.lookup b

theorem mem_lookup_addNeighbor {a b x y : String} :
    y ∈ (c.addNeighbor a b).lookup x <-> (x = a ∧ y = b) ∨ y ∈ c.lookup x := by
  show y ∈ ((c.graph.set a ((c.lookup a).insert b)).get? x).getD [] <-> _
  rw [Dict.get?_set]
  split_ifs with hx
  · rw [hx]
    show y ∈ (c.lookup a).insert b <-> _
    rw [List.mem_insert_iff]
    exact or_congr_left ⟨fun h => ⟨rfl, h⟩, fun h => h.right⟩
  · exact ⟨Or.inr, fun h => h.resolve_left (fun hboth => hx hboth.left)⟩

theorem mem_lookup_recordAccess {a b x y : String} :
    y ∈ (c.recordAccess a b).lookup x <->
      y ∈ c.lookup x ∨ (a ≠ b ∧ ((x = a ∧ y = b) ∨ (x = b ∧ y = a))) := by
  unfold recordAccess
  split
  next hsame => exact ⟨Or.inl, fun h => h.resolve_right (fun hne => hne.left hsame)⟩
  next hne =>
      rw [mem_lookup_addNeighbor, mem_lookup_addNeighbor]
      tauto

theorem Symmetric.recordAccess (h : c.Symmetric) (a b : String) :
    (c.recordAccess a b).Symmetric := by
  intro x y hy
  rw [mem_lookup_recordAccess] at hy ⊢
  rcases hy with hy | ⟨hne, hpair⟩
  · exact Or.inl (h x y hy)
  · exact Or.inr ⟨hne, by tauto⟩

theorem getD_discard (graph : Dict String (List String)) (contentHash neighbor x : String) :
    (discard graph contentHash neighbor).getD x [] =
      if x = neighbor then (graph.getD x []).filter (fun other => other != contentHash)
      else graph.getD x [] := by
  unfold discard Dict.getD
  cases hget : graph.get? neighbor with
  | none =>
    show (graph.get? x).getD [] = _
    split
    next heq =>
        rw [heq, hget]
        rfl
    next hne => rfl
  | some known =>
    rw [Dict.get?_set]
    split
    next heq =>
        rw [heq, hget]
        rfl
    next hne => rfl

theorem mem_foldl_discard (neighbors : List String) (graph : Dict String (List String))
    (contentHash x y : String) :
    y ∈ (neighbors.foldl (fun graph neighbor => discard graph contentHash neighbor)
        graph).getD x [] <->
      y ∈ graph.getD x [] ∧ ¬ (x ∈ neighbors ∧ y = contentHash) := by
  induction neighbors generalizing graph with
  | nil => simp
  | cons first rest ih =>
    rw [List.foldl_cons, ih, getD_discard, List.mem_cons]
    split
    next heq =>
        rw [List.mem_filter, bne_iff_ne]
        tauto
    next hne => tauto

theorem Symmetric.mem_lookup_remove (h : c.Symmetric) {x y : String} :
    y ∈ (c.remove contentHash).2.lookup x <->
      y ∈ c.lookup x ∧ x ≠ contentHash ∧ y ≠ contentHash := by
  show y ∈ (List.foldl _ _ _ : Dict String (List String)).getD x [] <-> _
  rw [mem_foldl_discard]
  unfold Dict.getD
  by_cases hx : x = contentHash
  · rw [hx, Dict.get?_erase_self]
    exact ⟨fun hmem => absurd hmem.left List.not_mem_nil, fun hmem => absurd rfl hmem.right.left⟩
  · rw [Dict.get?_erase_of_ne _ hx]
    constructor
    · rintro ⟨hy, hkept⟩
      refine ⟨hy, hx, ?_⟩
      rintro rfl
      exact hkept ⟨h x y hy, rfl⟩
    · rintro ⟨hy, _, hne⟩
      exact ⟨hy, fun hboth => hne hboth.right⟩

theorem Symmetric.remove (h : c.Symmetric) (contentHash : String) :
    (c.remove contentHash).2.Symmetric := by
  intro x y hy
  rw [h.mem_lookup_remove] at hy ⊢
  exact ⟨h x y hy.left, hy.right.right, hy.right.left⟩

end Coaccess

/-!
# Runs
-/

inductive IndexCall where
  | insert (fragment : Fragment) (locations : Finset String)
  | remove (contentHash : String)
  | recordCoAccess (a b : String)

structure IndexRun where
  index : FullIndex
  inserted : List String
  removed : List String

namespace IndexRun

def create : IndexRun where
  index := FullIndex.create
  inserted := []
  removed := []

def call (s : IndexRun) : IndexCall -> IndexRun
  | IndexCall.insert f locations =>
    { index := s.index.insert f locations
      inserted := f.payloadHash :: s.inserted
      removed := s.removed.filter (fun other => other != f.payloadHash) }
  | IndexCall.remove contentHash =>
    { index := (s.index.remove contentHash).2
      inserted := s.inserted.filter (fun other => other != contentHash)
      removed := contentHash :: s.removed }
  | IndexCall.recordCoAccess a b =>
    { s with
      index := s.index.recordCoAccess a b
      removed := s.removed.filter (fun other => other != a && other != b) }

def RemovalsComplete (s : IndexRun) : Prop :=
  forall contentHash, contentHash ∈ s.removed -> s.index.Cleared contentHash

def InsertedOnce (s : IndexRun) : IndexCall -> Prop
  | IndexCall.insert _ _ => True
  | IndexCall.remove contentHash => s.inserted.count contentHash ≤ 1
  | IndexCall.recordCoAccess _ _ => True

/-- Every part has the inserted hashes, and the removed ones have no neighbours. -/
structure InSync (s : IndexRun) : Prop where
  follows : exists l : LinkedTree, l.Follows s.index.system.positional
  tree : s.index.system.positional.root.hashes.Perm s.inserted
  entered : forall contentHash, contentHash ∈ s.inserted ->
    contentHash ∈ s.index.system.positional.nodeMap
  semantic : (s.index.system.semantic.fragments.map (fun f => f.payloadHash)).Perm s.inserted
  exactly : forall contentHash entry,
    s.index.system.exacts.entries.get? contentHash = some entry ->
      entry.fragment.payloadHash = contentHash ∧ contentHash ∈ s.inserted
  symmetric : s.index.coAccess.Symmetric
  removed : forall contentHash, contentHash ∈ s.removed ->
    ¬ contentHash ∈ s.inserted ∧ forall other, ¬ contentHash ∈ s.index.coAccess.lookup other

theorem create_inSync : create.InSync where
  follows := ⟨LinkedTree.create, LinkedTree.create_follows⟩
  tree := List.Perm.refl _
  entered := fun _ h => absurd h List.not_mem_nil
  semantic := List.Perm.refl _
  exactly := by
    intro contentHash entry h
    cases h
  symmetric := by
    intro a b h
    exact absurd h List.not_mem_nil
  removed := fun _ h => absurd h List.not_mem_nil

variable {s : IndexRun}

theorem InSync.insert (h : s.InSync) (f : Fragment) (locations : Finset String) :
    (s.call (IndexCall.insert f locations)).InSync where
  follows := by
    obtain ⟨l, hl⟩ := h.follows
    exact ⟨l.insert f, hl.insert f⟩
  tree := ((IntervalNode.toList_insertNode_perm f _).map _).trans (h.tree.cons f.payloadHash)
  entered := by
    intro contentHash hmem
    refine (Dict.mem_set _ _ _ _).mpr ?_
    rcases List.mem_cons.mp hmem with heq | hmem
    · exact Or.inl heq
    · exact Or.inr (h.entered contentHash hmem)
  semantic := by
    show ((s.index.system.semantic.fragments ++ [f]).map (fun f => f.payloadHash)).Perm _
    rw [List.map_append]
    exact (List.perm_append_singleton _ _).trans (h.semantic.cons f.payloadHash)
  exactly := by
    intro contentHash entry hget
    have hset : (s.index.system.exacts.entries.set f.payloadHash
        { fragment := f, locations := locations }).get? contentHash = some entry := hget
    rw [Dict.get?_set] at hset
    split at hset
    next heq =>
        cases hset
        rw [heq]
        exact ⟨rfl, List.mem_cons_self⟩
    next hne =>
        obtain ⟨hhash, hmem⟩ := h.exactly contentHash entry hset
        exact ⟨hhash, List.mem_cons_of_mem _ hmem⟩
  symmetric := h.symmetric
  removed := by
    intro contentHash hmem
    obtain ⟨hmem, hne⟩ := List.mem_filter.mp hmem
    obtain ⟨hgone, hedges⟩ := h.removed contentHash hmem
    refine ⟨?_, hedges⟩
    intro hinserted
    rcases List.mem_cons.mp hinserted with heq | hinserted
    · exact bne_iff_ne.mp hne heq
    · exact hgone hinserted

theorem InSync.recordCoAccess (h : s.InSync) (a b : String) :
    (s.call (IndexCall.recordCoAccess a b)).InSync where
  follows := h.follows
  tree := h.tree
  entered := h.entered
  semantic := h.semantic
  exactly := h.exactly
  symmetric := h.symmetric.recordAccess a b
  removed := by
    intro contentHash hmem
    obtain ⟨hmem, hne⟩ := List.mem_filter.mp hmem
    obtain ⟨hgone, hedges⟩ := h.removed contentHash hmem
    rw [Bool.and_eq_true, bne_iff_ne, bne_iff_ne] at hne
    refine ⟨hgone, ?_⟩
    intro other hedge
    rcases Coaccess.mem_lookup_recordAccess.mp hedge with hedge | ⟨_, hpair⟩
    · exact hedges other hedge
    · rcases hpair with ⟨_, heq⟩ | ⟨_, heq⟩
      · exact hne.right heq
      · exact hne.left heq

theorem erase_perm_filter {hashes others : List String} (h : hashes.Perm others)
    (hcount : others.count contentHash ≤ 1) :
    (hashes.erase contentHash).Perm (others.filter (fun other => other != contentHash)) := by
  refine (h.erase contentHash).trans (List.perm_iff_count.mpr ?_)
  intro other
  rw [List.count_erase]
  by_cases heq : other = contentHash
  · have hgone : ¬ other ∈ others.filter (fun other => other != contentHash) := by
      intro hmem
      exact bne_iff_ne.mp (List.mem_filter.mp hmem).right heq
    rw [List.count_eq_zero_of_not_mem hgone, heq, beq_self_eq_true, if_pos rfl]
    omega
  · have hne : (contentHash == other) = false := beq_false_of_ne (Ne.symm heq)
    have hkept : (others.filter (fun other => other != contentHash)).count other =
        others.count other := List.count_filter (bne_iff_ne.mpr heq)
    rw [hne, hkept]
    rfl

theorem InSync.hashes_remove (h : s.InSync) (contentHash : String) :
    (s.index.system.positional.remove contentHash).2.root.hashes.Perm
      (s.index.system.positional.root.hashes.erase contentHash) := by
  obtain ⟨l, hl⟩ := h.follows
  obtain ⟨d, hd⟩ := hl.balanced
  rcases hl.remove_cases contentHash with ⟨_, hnone, _, ht⟩ | ⟨start, hholds, _, ht⟩
  · rw [ht, List.erase_of_not_mem]
    intro hmem
    exact (Dict.get?_eq_none_iff _ _).mp hnone
      (h.entered contentHash (h.tree.mem_iff.mp hmem))
  · rw [ht]
    have hperm := IntervalNode.hashes_removeNode hd hl.sorted hholds
    exact (List.cons_perm_iff_perm_erase.mp hperm.symm).right

theorem hashes_semantic_remove (x : Semantics) (contentHash : String) :
    (x.remove contentHash).2.fragments.map (fun f => f.payloadHash) =
      (x.fragments.map (fun f => f.payloadHash)).erase contentHash := by
  rw [List.erase_eq_eraseP', List.eraseP_map]
  unfold Semantics.remove
  split
  next hany => rfl
  next hnone =>
      rw [List.eraseP_of_forall_not]
      intro f hf hhash
      exact hnone (List.any_eq_true.mpr ⟨f, hf, hhash⟩)

theorem get?_exacts_remove (x : Exacts) (contentHash other : String) :
    (x.remove contentHash).2.entries.get? other =
      if other = contentHash then none else x.entries.get? other := by
  unfold Exacts.remove
  split
  next hmem => exact Dict.get?_erase _ _ _
  next hnone =>
      split
      next heq =>
          rw [heq]
          exact (Dict.get?_eq_none_iff _ _).mpr hnone
      next hne => rfl

section

variable (h : s.InSync)

include h

theorem InSync.entered_remove {other : String} (hmem : other ∈ s.inserted)
    (hne : other ≠ contentHash) :
    other ∈ (s.index.system.positional.remove contentHash).2.nodeMap := by
  obtain ⟨l, hl⟩ := h.follows
  have hentered := h.entered other hmem
  rcases hl.remove_cases contentHash with ⟨_, _, _, ht⟩ | ⟨start, _, _, ht⟩
  · rw [ht]
    exact hentered
  · rw [ht]
    exact (Dict.mem_erase _ _ _).mpr ⟨hne, mem_foldl_set hentered⟩

theorem InSync.remove (honce : s.inserted.count contentHash ≤ 1) :
    (s.call (IndexCall.remove contentHash)).InSync where
  follows := by
    obtain ⟨l, hl⟩ := h.follows
    exact ⟨_, (hl.remove contentHash).right⟩
  tree := (h.hashes_remove contentHash).trans (erase_perm_filter h.tree honce)
  entered := by
    intro other hmem
    obtain ⟨hmem, hne⟩ := List.mem_filter.mp hmem
    exact h.entered_remove hmem (bne_iff_ne.mp hne)
  semantic := by
    show ((s.index.system.semantic.remove contentHash).2.fragments.map _).Perm _
    rw [hashes_semantic_remove]
    exact erase_perm_filter h.semantic honce
  exactly := by
    intro other entry hget
    have hremoved : (s.index.system.exacts.remove contentHash).2.entries.get? other =
        some entry := hget
    rw [get?_exacts_remove] at hremoved
    split at hremoved
    next heq => cases hremoved
    next hne =>
        obtain ⟨hhash, hmem⟩ := h.exactly other entry hremoved
        exact ⟨hhash, List.mem_filter.mpr ⟨hmem, bne_iff_ne.mpr hne⟩⟩
  symmetric := h.symmetric.remove contentHash
  removed := by
    intro other hmem
    rcases List.mem_cons.mp hmem with rfl | hmem
    · refine ⟨fun hkept => bne_iff_ne.mp (List.mem_filter.mp hkept).right rfl, ?_⟩
      intro neighbor hedge
      exact (h.symmetric.mem_lookup_remove.mp hedge).right.right rfl
    · obtain ⟨hgone, hedges⟩ := h.removed other hmem
      refine ⟨fun hkept => hgone (List.mem_filter.mp hkept).left, ?_⟩
      intro neighbor hedge
      exact hedges neighbor (h.symmetric.mem_lookup_remove.mp hedge).left

theorem InSync.search : s.index.system.positional.root.Search := by
  obtain ⟨l, hl⟩ := h.follows
  obtain ⟨d, hd⟩ := hl.balanced
  exact hd.search hl.sorted

theorem InSync.mem_inserted {f : Fragment}
    (hf : f ∈ s.index.system.positional.root.toList) : f.payloadHash ∈ s.inserted :=
  h.tree.mem_iff.mp (List.mem_map_of_mem hf)

theorem InSync.cleared (hgone : ¬ contentHash ∈ s.inserted)
    (hedges : forall other, ¬ contentHash ∈ s.index.coAccess.lookup other) :
    s.index.Cleared contentHash where
  exactly := by
    rintro other entry hget rfl
    obtain ⟨hhash, hmem⟩ := h.exactly other entry hget
    exact hgone (hhash ▸ hmem)
  positional := by
    rintro start stop f hf rfl
    have hfound : f ∈ s.index.system.positional.root.findOverlapping start stop := hf
    rw [IntervalNode.findOverlapping_eq h.search] at hfound
    exact hgone (h.mem_inserted (List.mem_filter.mp hfound).left)
  adjacent := by
    rintro position maxGap f hf rfl
    have hfound := (IntervalNode.findAdjacent_perm h.search position maxGap).mem_iff.mp hf
    exact hgone (h.mem_inserted (IntervalNode.mem_adjacent.mp hfound).left)
  semantic := by
    rintro k f hf rfl
    exact hgone (h.semantic.mem_iff.mp
      (List.mem_map_of_mem (IndexSystem.mem_semanticLookup hf)))
  coAccess := hedges

theorem InSync.removalsComplete : s.RemovalsComplete := by
  intro contentHash hmem
  obtain ⟨hgone, hedges⟩ := h.removed contentHash hmem
  exact h.cleared hgone hedges

end

theorem mem_semanticLookup_all {x : IndexSystem} {f : Fragment} (hf : f ∈ x.semantic.fragments) :
    f ∈ x.semanticLookup x.semantic.fragments.length := by
  unfold IndexSystem.semanticLookup
  rw [Int.toNat_natCast, List.take_length]
  exact hf

theorem InSync.insertedOnce (h : s.InSync) {indexCall : IndexCall}
    (hcomplete : (s.call indexCall).RemovalsComplete) : s.InsertedOnce indexCall := by
  cases indexCall with
  | insert f locations | recordCoAccess a b => trivial
  | remove contentHash =>
    show s.inserted.count contentHash ≤ 1
    by_contra htwice
    have hcleared := hcomplete contentHash List.mem_cons_self
    have hmem : contentHash ∈
        (s.index.system.semantic.remove contentHash).2.fragments.map
          (fun f => f.payloadHash) := by
      rw [hashes_semantic_remove, ← List.count_pos_iff, List.count_erase_self,
        h.semantic.count_eq]
      omega
    obtain ⟨f, hf, hhash⟩ := List.mem_map.mp hmem
    exact hcleared.semantic _ f (mem_semanticLookup_all hf) hhash

/-- Every removal is complete in exactly the runs where a removed hash was inserted at
most once since its last removal. -/
theorem removalsComplete_iff (calls : List IndexCall) :
    Throughout call RemovalsComplete create calls <-> Along call InsertedOnce create calls := by
  refine throughout_iff_along_of_kept InSync RemovalsComplete InsertedOnce ?_
    (fun s h => h.removalsComplete) (fun s first h hnext => h.insertedOnce hnext)
    create_inSync
  intro s indexCall h honce
  cases indexCall with
  | insert f locations => exact h.insert f locations
  | remove contentHash => exact h.remove honce
  | recordCoAccess a b => exact h.recordCoAccess a b

end IndexRun

section Sample

def twiceInserted : List IndexCall :=
  [.insert outerWindow ∅, .insert outerWindow ∅, .remove "a"]

theorem twiceInserted_not_removalsComplete :
    ¬ Throughout IndexRun.call IndexRun.RemovalsComplete IndexRun.create twiceInserted := by
  intro h
  have hcleared := h twiceInserted (List.prefix_refl _) "a" List.mem_cons_self
  exact hcleared.semantic 1 outerWindow List.mem_cons_self rfl

end Sample

end Index
end Membrane
