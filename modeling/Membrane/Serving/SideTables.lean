import Membrane.Serving.IndexMirror

/-!
# The side tables of a node

A node with a tier policy records a tier for every fragment that passes the gates of a
store, before the store is decided, and enters every fragment that it inserts in the
access graph.  Nothing takes an entry out of either table.
-/

namespace Membrane
namespace Serving

open Foundation Data Store Index

namespace Node

variable {sigma tau pi : Type}

def tierOf (n : Node sigma tau pi) (contentHash : String) : Option Tier :=
  n.selectedTiers.get? ((n.locate contentHash Caller.internal).getD contentHash)

structure Attached (n : Node sigma tau pi) : Prop where
  graph : forall contentHash, contentHash ∈ n.graph.nodes ->
    exists k f, n.fragments.get? k = some f ∧ f.payloadHash = contentHash
  tiers : forall k, k ∈ n.selectedTiers -> k ∈ n.fragments

structure SideTablesBounded (n : Node sigma tau pi) : Prop extends Attached n where
  graph_size : n.graph.nodes.size ≤ n.fragments.size
  tiers_size : n.selectedTiers.size ≤ n.fragments.size
  tierOf_none : forall contentHash, n.locate contentHash Caller.internal = none ->
    n.tierOf contentHash = none

theorem not_mem_of_locate {n : Node sigma tau pi} {contentHash : String}
    (h : n.locate contentHash Caller.internal = none) : ¬ contentHash ∈ n.fragments := by
  intro hmem
  unfold locate at h
  rw [if_pos hmem, if_pos hmem] at h
  split at h
  · cases h
  · split at h
    · cases h
    · cases h

theorem sideTablesBounded_iff {n : Node sigma tau pi} :
    n.SideTablesBounded <-> n.Attached := by
  constructor
  · exact fun h => h.toAttached
  · intro h
    refine ⟨h, ?_, ?_, ?_⟩
    · have hsub : n.graph.nodes.keys ⊆ n.fragments.values.map (fun f => f.payloadHash) := by
        intro contentHash hmem
        obtain ⟨k, f, hf, hhash⟩ := h.graph contentHash hmem
        exact List.mem_map.mpr ⟨f, (Dict.mem_values_iff _ _).mpr ⟨k, hf⟩, hhash⟩
      have hlength := (n.graph.nodes.keys_nodup.subperm hsub).length_le
      unfold Dict.keys Dict.values at hlength
      rw [List.length_map, List.length_map, List.length_map] at hlength
      exact hlength
    · have hsub : n.selectedTiers.keys ⊆ n.fragments.keys := fun k hk => h.tiers k hk
      have hlength := (n.selectedTiers.keys_nodup.subperm hsub).length_le
      unfold Dict.keys at hlength
      rw [List.length_map, List.length_map] at hlength
      exact hlength
    · intro contentHash hnone
      unfold tierOf
      rw [hnone]
      refine (Dict.get?_eq_none_iff _ _).mpr ?_
      exact fun hmem => not_mem_of_locate hnone (h.tiers contentHash hmem)

/-!
# One call
-/

variable {n n' : Node sigma tau pi}

structure Tiered (n : Node sigma tau pi) : Prop where
  policy : n.tierPolicy.isSome = true
  tiers : forall k, k ∈ n.fragments -> k ∈ n.selectedTiers

theorem mem_selectedTiers_charged (ht : n.Tiered) (f : Fragment) (k : String) :
    k ∈ (n.charged f).selectedTiers <-> k = f.key ∨ k ∈ n.selectedTiers := by
  obtain ⟨policy, hpolicy⟩ := Option.isSome_iff_exists.mp ht.policy
  unfold charged
  rw [n.chargeQuota_eq f]
  simp only [hpolicy]
  exact Dict.mem_set _ _ _ _

theorem charged_graph (n : Node sigma tau pi) (f : Fragment) :
    (n.charged f).graph = n.graph := by
  rw [n.charged_eq f]

theorem charged_tierPolicy (n : Node sigma tau pi) (f : Fragment) :
    (n.charged f).tierPolicy = n.tierPolicy := by
  rw [n.charged_eq f]

theorem Tiered.charged (h : n.Tiered) (f : Fragment) : (n.charged f).Tiered where
  policy := by
    rw [charged_tierPolicy]
    exact h.policy
  tiers := by
    intro k hk
    rw [charged_fragments] at hk
    exact (mem_selectedTiers_charged h f k).mpr (Or.inr (h.tiers k hk))

theorem Attached.charged_iff (ht : n.Tiered) (h : n.Attached) (f : Fragment) :
    (n.charged f).Attached <-> f.key ∈ n.fragments := by
  constructor
  · intro h'
    have hmem := h'.tiers f.key ((mem_selectedTiers_charged ht f f.key).mpr (Or.inl rfl))
    rw [charged_fragments] at hmem
    exact hmem
  · intro hk
    constructor
    · intro contentHash hmem
      rw [charged_graph] at hmem
      rw [charged_fragments]
      exact h.graph contentHash hmem
    · intro k hmem
      rw [charged_fragments]
      rcases (mem_selectedTiers_charged ht f k).mp hmem with rfl | hmem
      · exact hk
      · exact h.tiers k hmem

variable [InventoryHash]

theorem Tiered.inserted (h : n.Tiered) {f : Fragment} (hf : f.key ∈ n.selectedTiers)
    (isPrimary : Bool) (now : ℚ) : (n.inserted f isPrimary now).Tiered where
  policy := h.policy
  tiers := by
    intro k hk
    rcases (mem_inserted k).mp hk with rfl | hk
    · exact hf
    · exact h.tiers k hk

variable [ContentStore sigma]

theorem Tiered.evicts (h : n.Tiered) {victims : List (String × Fragment)}
    (hevicts : Evicts n victims n') : n'.Tiered where
  policy := by
    rw [hevicts.frame.tierPolicy]
    exact h.policy
  tiers := by
    intro k hk
    rw [hevicts.frame.selectedTiers]
    exact h.tiers k (hevicts.mem_of_remaining hk)

theorem Attached.evicts_iff (ht : n.Tiered) (h : n.Attached) (victims : List (String × Fragment))
    (n' : Node sigma tau pi) (hevicts : Evicts n victims n') : n'.Attached <-> victims = [] := by
  constructor
  · intro h'
    rw [List.eq_nil_iff_forall_not_mem]
    rintro ⟨k, f⟩ hvictim
    have htier : k ∈ n'.selectedTiers := by
      rw [hevicts.frame.selectedTiers]
      exact ht.tiers k (Dict.mem_of_get? (hevicts.resident k f hvictim))
    exact ((hevicts.mem_remaining_iff k).mp (h'.tiers k htier)).right
      (List.mem_map_of_mem hvictim)
  · intro hnone
    constructor
    · intro contentHash hmem
      rw [hevicts.frame.graph] at hmem
      obtain ⟨k, f, hf, hhash⟩ := h.graph contentHash hmem
      refine ⟨k, f, ?_, hhash⟩
      rw [hevicts.remaining k, hnone]
      exact hf
    · intro k hk
      rw [hevicts.frame.selectedTiers] at hk
      rw [hevicts.mem_remaining_iff, hnone]
      exact ⟨h.tiers k hk, List.not_mem_nil⟩

theorem Attached.inserted_iff (ht : n.Tiered) (h : n.Attached) {f : Fragment}
    (hk : ¬ f.key ∈ n.fragments) {victims : List (String × Fragment)}
    (hevicts : Evicts (n.charged f) victims n') (isPrimary : Bool) (now : ℚ) :
    (n'.inserted f isPrimary now).Attached <-> victims = [] := by
  constructor
  · intro h'
    rw [List.eq_nil_iff_forall_not_mem]
    rintro ⟨k, g⟩ hvictim
    have hresident : k ∈ n.fragments := by
      have hmem := Dict.mem_of_get? (hevicts.resident k g hvictim)
      rw [charged_fragments] at hmem
      exact hmem
    have htier : k ∈ n'.selectedTiers := by
      rw [hevicts.frame.selectedTiers]
      exact (mem_selectedTiers_charged ht f k).mpr (Or.inr (ht.tiers k hresident))
    rcases (mem_inserted k).mp (h'.tiers k htier) with rfl | hmem
    · exact hk hresident
    · exact ((hevicts.mem_remaining_iff k).mp hmem).right (List.mem_map_of_mem hvictim)
  · intro hnone
    have hremaining : forall k, n'.fragments.get? k = n.fragments.get? k := by
      intro k
      rw [hevicts.remaining k, hnone, charged_fragments]
      rfl
    constructor
    · intro contentHash hmem
      have hnodes : contentHash ∈ n'.graph.nodes.set f.payloadHash f := hmem
      rw [hevicts.frame.graph, charged_graph] at hnodes
      rcases (Dict.mem_set _ _ _ _).mp hnodes with rfl | hnodes
      · refine ⟨f.key, f, ?_, rfl⟩
        rw [get?_inserted, if_pos rfl]
      · obtain ⟨k, g, hg, hhash⟩ := h.graph contentHash hnodes
        refine ⟨k, g, ?_, hhash⟩
        rw [get?_inserted, if_neg, hremaining]
        · exact hg
        · rintro rfl
          exact hk (Dict.mem_of_get? hg)
    · intro k hmem
      have htier : k ∈ n'.selectedTiers := hmem
      rw [hevicts.frame.selectedTiers] at htier
      rcases (mem_selectedTiers_charged ht f k).mp htier with rfl | htier
      · exact (mem_inserted _).mpr (Or.inl rfl)
      · refine (mem_inserted k).mpr (Or.inr ?_)
        obtain ⟨g, hg⟩ := (Dict.mem_iff_exists_get? _ _).mp (h.tiers k htier)
        rw [← hremaining] at hg
        exact Dict.mem_of_get? hg

/-!
# Runs
-/

variable [LowerTier tau] [EvictionPolicy pi]

/-- The calls that leave no entry behind.  A store that passes the gates must be of a
resident key or find room beside the others; no other call may remove a fragment. -/
def LeavesNothing (n : Node sigma tau pi) : Mutation -> Prop
  | .store f _ caller _ _ =>
    n.PassesGates f caller ->
      f.key ∈ n.fragments ∨ n.table.memoryUsage + f.payloadSize ≤ n.maxMemoryBytes
  | .removeFragment k => ¬ k ∈ n.fragments
  | .evict targetBytes _ => targetBytes ≤ 0 ∨ forall k, ¬ k ∈ n.fragments
  | .sweepExpired now => n.table.expired now = []

section

variable (hn : n.Invariant) (ht : n.Tiered)

include hn ht

theorem store_tiered (f : Fragment) (isPrimary : Bool) (caller : Caller) (now evictTime : ℚ) :
    (n.store f isPrimary caller now evictTime).2.Tiered := by
  have hcharged := ht.charged f
  apply store_preserves hn Tiered ht hcharged ⟨hcharged.policy, hcharged.tiers⟩
  intro victims room hevicts
  refine (hcharged.evicts hevicts).inserted ?_ isPrimary now
  rw [hevicts.frame.selectedTiers]
  exact (mem_selectedTiers_charged ht f f.key).mpr (Or.inl rfl)

theorem mutate_tiered (m : Mutation) :
    (n.mutate m).Tiered := by
  rcases mutate_cases hn.toConsistent m with ⟨f, isPrimary, caller, now, evictTime, rfl⟩ |
    ⟨_, hevicts⟩
  · exact store_tiered hn ht f isPrimary caller now evictTime
  · exact ht.evicts hevicts

theorem store_attached_iff (h : n.Attached)
    (f : Fragment) (isPrimary : Bool) (caller : Caller) (now evictTime : ℚ) :
    (n.store f isPrimary caller now evictTime).2.Attached <->
      n.LeavesNothing (.store f isPrimary caller now evictTime) := by
  unfold LeavesNothing
  rcases store_cases hn f isPrimary caller now evictTime with
    ⟨hgates, _, hsame⟩ | ⟨hgates, hlarge, hstore⟩ | ⟨_, _, hk, hstore⟩ |
      ⟨hgates, hsize, hk, victims, room, hplan, hevicts, _, _, hstore⟩
  · rw [hsame]
    exact ⟨fun _ hpasses => absurd hpasses hgates, fun _ => h⟩
  · rw [hstore]
    have husage : 0 ≤ n.table.memoryUsage := by
      rw [hn.bookkeeping.memory]
      exact residentBytes_nonneg _
    refine (h.charged_iff ht f).trans ⟨fun hk _ => Or.inl hk, fun hroom => ?_⟩
    rcases hroom hgates with hk | hfits
    · exact hk
    · omega
  · rw [hstore]
    have hcharged := (h.charged_iff ht f).mpr hk
    exact ⟨fun _ _ => Or.inl hk, fun _ => ⟨hcharged.graph, hcharged.tiers⟩⟩
  · rw [hstore]
    rw [h.inserted_iff ht hk hevicts isPrimary now, victims_eq_nil_iff hn hsize hplan]
    exact ⟨fun hfits _ => Or.inr hfits, fun hall => (hall hgates).resolve_left hk⟩

theorem mutate_attached_iff (h : n.Attached)
    (m : Mutation) : (n.mutate m).Attached <-> n.LeavesNothing m := by
  have hremoves := h.evicts_iff ht
  cases m with
  | store f isPrimary caller now evictTime =>
    exact store_attached_iff hn ht h f isPrimary caller now evictTime
  | removeFragment k => exact after_removeFragment_iff hn.toConsistent hremoves k
  | evict targetBytes now => exact after_evict_iff hn.toConsistent hremoves targetBytes now
  | sweepExpired now => exact after_sweepExpired_iff hn.toConsistent hremoves now

end

/-- The side tables of a new node stay with the resident fragments in exactly the runs
where every store that passes the gates is of a resident key or finds room, and where no
fragment is removed. -/
theorem run_sideTablesBounded_iff (config : Config sigma tau pi)
    (hpolicy : config.tierPolicy.isSome = true) (hgraph : config.graph = Graph.create)
    (mutations : List Mutation) :
    Throughout mutate SideTablesBounded (create config) mutations <->
      Along mutate LeavesNothing (create config) mutations := by
  have htiered : (create config).Tiered :=
    ⟨hpolicy, fun k hk => absurd hk (Dict.not_mem_empty k)⟩
  have hattached : (create config).Attached := by
    refine ⟨?_, fun k hk => absurd hk (Dict.not_mem_empty k)⟩
    intro contentHash hmem
    have hnodes : contentHash ∈ config.graph.nodes := hmem
    rw [hgraph] at hnodes
    exact absurd hnodes (Dict.not_mem_empty contentHash)
  refine throughout_iff_along (fun n => n.Invariant ∧ n.Tiered) SideTablesBounded
    (fun _ _ => True) LeavesNothing ?_ ?_ ⟨create_invariant config, htiered⟩
    (sideTablesBounded_iff.mpr hattached)
    (along_of_forall (fun _ _ => trivial) (create config) mutations)
  · rintro n m ⟨hn, ht⟩ _
    exact ⟨mutate_invariant hn m, mutate_tiered hn ht m⟩
  · rintro n m ⟨hn, ht⟩ h _
    exact sideTablesBounded_iff.trans (mutate_attached_iff hn ht h.toAttached m)

end Node

section Sample

attribute [local instance] InventoryHash.constant

def tieredConfig : Config InProcessBytes Empty WeightedLRU :=
  { Config.default "n0" 100 with
    tierPolicy := some
      { hotThreshold := 7 / 10, warmThreshold := 2 / 5, archiveThreshold := 0 } }

theorem windowStore_sideTablesBounded :
    Throughout Node.mutate Node.SideTablesBounded (Node.create tieredConfig)
      [Node.windowStore] := by
  refine (Node.run_sideTablesBounded_iff tieredConfig rfl rfl [Node.windowStore]).mpr
    ⟨fun _ => Or.inr ?_, trivial⟩
  decide

/-- The tier and the graph node of a removed fragment stay. -/
theorem removedWindow_not_sideTablesBounded :
    ¬ Throughout Node.mutate Node.SideTablesBounded (Node.create tieredConfig)
      [Node.windowStore, .removeFragment "acme:h"] := by
  intro h
  have hbounded := h _ (List.prefix_refl _)
  have htier : "acme:h" ∈ (run Node.mutate (Node.create tieredConfig)
      [Node.windowStore, .removeFragment "acme:h"]).selectedTiers := by decide +kernel
  have hgone : ¬ "acme:h" ∈ (run Node.mutate (Node.create tieredConfig)
      [Node.windowStore, .removeFragment "acme:h"]).fragments := by decide +kernel
  exact hgone (hbounded.tiers _ htier)

end Sample

end Serving
end Membrane
