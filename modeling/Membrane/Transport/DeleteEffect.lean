import Membrane.Serving.SilentReads
import Membrane.Transport.ClusterOps

/-!
# The effect of a deletion

A deletion removes one key, and a read resolves a hash through the caller's key, the
default tenant's key, the copies of other tenants and the lower tier.  The read that
follows a deletion finds nothing exactly when nothing else is left of the hash.
-/

namespace Membrane
namespace Transport

open Foundation Data Store Serving

def Succeeds (result : Except NodeError Response) : Prop :=
  exists body, result = .ok (okResponse body) ∧ ("success", Value.bool true) ∈ body

section Effect

variable {sigma tau pi : Type} [InventoryHash] [ContentStore sigma] {n : Node sigma tau pi}

def without (n : Node sigma tau pi) (k : String) : Node sigma tau pi :=
  Node.after (n.removeFragment k)

theorem without_frame (n : Node sigma tau pi) (k : String) :
    (without n k).lowerTier = n.lowerTier ∧
      forall thread c entry, (without n k).table.cached thread c = some entry ->
        n.table.cached thread c = some entry ∧
          (without n k).fragments.get? c = n.fragments.get? c := by
  unfold without
  by_cases hk : k ∈ n.fragments
  · rcases Node.removeFragment_of_mem (Node.addressed _) hk with ⟨f, removed, hremove⟩
    rcases Node.removeFragment_eq_ok hremove with ⟨table, hpop, _, hremoved⟩
    rw [hremove]
    refine ⟨by rw [hremoved]; rfl, fun thread c entry hentry => ?_⟩
    have htable : removed.table = table := by
      rw [hremoved]
      rfl
    change removed.table.cached thread c = some entry at hentry
    rw [htable] at hentry
    rcases cached_of_pop hpop thread c hentry with ⟨hne, hcached⟩
    refine ⟨hcached, ?_⟩
    show removed.fragments.get? c = n.fragments.get? c
    rw [(Node.removeFragment_fragments hremove).right, Dict.get?_erase, if_neg hne]
  · rw [Node.removeFragment_of_not_mem hk]
    exact ⟨rfl, fun _ _ _ hentry => ⟨hentry, rfl⟩⟩

theorem without_cachedResident (hcached : CachedResident n.table) (k : String) :
    CachedResident (without n k).table := by
  intro thread c entry hentry
  rcases (without_frame n k).right thread c entry hentry with ⟨hold, hsame⟩
  exact hsame.trans (hcached thread c entry hold)

theorem opDelete_succeeds (n : Node sigma tau pi) (tombstones : Option TombstoneTable)
    (k nodeId : String) (tombstoneUntil : Option Deadline) (now : ℚ) :
    Succeeds (opDelete n tombstones k nodeId tombstoneUntil now).1 := by
  unfold opDelete
  by_cases hk : k ∈ n.fragments
  · rcases Node.removeFragment_of_mem (Node.addressed _) hk with ⟨f, removed, hremove⟩
    rw [if_neg (not_not.mpr hk)]
    simp only [hremove]
    exact ⟨_, rfl, List.mem_cons_self⟩
  · rw [if_pos hk]
    exact ⟨_, rfl, List.mem_cons_self⟩

variable [LowerTier tau]

theorem without_keyedTier (k : String) (h : n.KeyedTier) : (without n k).KeyedTier := by
  intro c item hitem
  unfold Node.fetched at hitem
  rw [(without_frame n k).left] at hitem
  exact h c item hitem

variable [EvictionPolicy pi]

theorem without_invariant (hn : n.Invariant) (k : String) : (without n k).Invariant :=
  Node.mutate_invariant hn (.removeFragment k)

def DeleteEffective (n : Node sigma tau pi) (contentHash : String) (caller : Caller) :
    Prop :=
  forall tombstones nodeId tombstoneUntil now,
    Succeeds (opDelete n tombstones contentHash nodeId tombstoneUntil now).1 ->
      forall thread ownTimes times otherTimes,
        ((opDelete n tombstones contentHash nodeId tombstoneUntil now).2.1.retrieve thread
          contentHash caller ownTimes times otherTimes).1 = .ok none

/-- A deletion that reports success is effective if without the deleted key nothing is
left of the hash.  Over a tier that files fragments under their own keys this is also
necessary. -/
theorem opDelete_effective_iff (hn : n.Invariant) (hcached : CachedResident n.table)
    {caller : Caller} (hcaller : Privileged caller) (contentHash : String) :
    ((without n contentHash).FindsNothing contentHash caller ->
      DeleteEffective n contentHash caller) ∧
    (n.KeyedTier -> (forall j, (n.taken j).KeyedTier) ->
      DeleteEffective n contentHash caller ->
        (without n contentHash).FindsNothing contentHash caller) := by
  have hinvariant := without_invariant hn contentHash
  have hresident := without_cachedResident hcached contentHash
  constructor
  · intro hnothing tombstones nodeId tombstoneUntil now _
    rw [opDelete_node]
    exact Node.retrieve_of_findsNothing hinvariant hresident hnothing
  · intro hkeyed hlater heffective
    have hanswers := heffective none "" none 0 (opDelete_succeeds n none contentHash "" none 0)
    rw [opDelete_node] at hanswers
    apply Node.findsNothing_of_retrieve hinvariant hresident
      (without_keyedTier contentHash hkeyed) _ hcaller hanswers
    intro j k item hitem
    apply hlater j k item
    unfold Node.taken at hitem ⊢
    rw [(without_frame n contentHash).left] at hitem
    exact hitem

end Effect

/-!
# Copies that survive a deletion
-/

section Survivors

attribute [local instance] InventoryHash.constant FragmentCodec.unreadable

def holding (demoted f : Fragment) :
    Node InProcessBytes (WarmTier InProcessBytes) WeightedLRU :=
  ((Node.create (Node.warmConfig demoted)).store f true Caller.internal 0 0).2

theorem holding_filed :
    exists w, (holding publicOther publicCopy).lowerTier = some w ∧ w.Filed :=
  ⟨_, rfl, (WarmTier.create_filed (fun _ => rfl) _ _).demoteLater publicOther none⟩

theorem publicCopy_deleted :
    DeleteEffective (holding publicOther publicCopy) "h" Caller.internal ∧
      (without (holding publicOther publicCopy) "h").FindsNothing "h" Caller.internal := by
  have hn : (holding publicOther publicCopy).Invariant :=
    Node.store_invariant (Node.create_invariant _)
  have hcached : CachedResident (holding publicOther publicCopy).table := by
    intro thread k entry hentry
    cases hentry
  have hcaller : Privileged Caller.internal := Or.inl rfl
  have hfetched : (without (holding publicOther publicCopy) "h").fetched "h" = none := by
    decide +kernel
  have hnothing :
      (without (holding publicOther publicCopy) "h").FindsNothing "h" Caller.internal := by
    have hempty :
        (without (holding publicOther publicCopy) "h").fragments = Dict.empty := rfl
    refine ⟨?_, ?_⟩
    · refine
        { absent := by decide +kernel
          taken := fun item hitem => ?_
          refused := fun item hitem => ?_ }
      · cases hitem
      · cases hitem
    · intro k f hf
      cases hf
  rcases holding_filed with ⟨w, htier, hw⟩
  rcases Node.keyedTier_of_filed htier hw with ⟨hkeyed, hlater⟩
  rcases opDelete_effective_iff hn hcached hcaller "h" with ⟨hsuffices, hnecessary⟩
  exact ⟨hsuffices hnothing, hnecessary hkeyed hlater (hsuffices hnothing)⟩

theorem survivingCopies_not_effective :
    Succeeds (opDelete (holding publicOther acmeCopy) none "h" "n0" none 1).1 ∧
      ((opDelete (holding publicOther acmeCopy) none "h" "n0" none 1).2.1.retrieve 0 "h"
        Caller.internal (readAt 1) (readAt 1) (readAt 1)).1 = .ok (some acmeCopy) ∧
    Succeeds (opDelete (Node.create (Node.warmConfig publicCopy)) none "h" "n0" none 1).1 ∧
      ((opDelete (Node.create (Node.warmConfig publicCopy)) none "h" "n0" none
        1).2.1.retrieve 0 "h" Caller.internal (readAt 1) (readAt 1) (readAt 1)).1 =
          .ok (some publicCopy) := by
  refine ⟨opDelete_succeeds _ _ _ _ _ _, ?_, opDelete_succeeds _ _ _ _ _ _, ?_⟩
  · decide +kernel
  · decide +kernel

end Survivors

end Transport
end Membrane
