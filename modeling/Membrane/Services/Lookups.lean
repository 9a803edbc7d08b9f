import Membrane.Services.Assembling
import Membrane.Services.Memory

/-!
# What a prefix lookup answers

A lookup answers from the prefix cache or walks the fragments that the reconstructor of
the caller assembles.  Whatever is assembled has the hash of some tokens, so the
remembered hashes never contain the separator of keys.
-/

namespace Membrane
namespace Services

open Foundation Data Store Index Serving

variable {f : Fragment} {fragments : List Fragment}

namespace Reconstructor

variable {owner error : Type} {r : Reconstructor owner error} [TokenHash]
  {promptTokens : List Int} {modelId : String}

theorem Takes.modelId_eq (htakes : r.Takes promptTokens modelId f)
    (hverify : r.config.verifyTokens = true) : f.identity.modelId = modelId := by
  rcases htakes.right with haccepts | hlongest
  · exact ((accepts_iff hverify f).mp haccepts).left
  · rcases longestMatch_eq_some hlongest with ⟨_, _, _, _, _, _, _, hmodel, _⟩
    exact hmodel

theorem takes_of_mem_assembled (hindex : r.indexSystem.WellBuilt) :
    forall f, f ∈ (r.assemble promptTokens modelId).assembled ->
      r.Takes promptTokens modelId f := by
  apply forall_mem_assembled
  · intro f hlongest
    exact ⟨(offered_of_longestMatch hlongest).mem_fragments hindex, Or.inr hlongest⟩
  · intro f hoffered haccepts
    exact ⟨hoffered.mem_fragments hindex, Or.inl haccepts⟩

end Reconstructor

def firstOfHash (seen : List String) : List Fragment -> List Fragment
  | [] => []
  | f :: rest =>
    if f.payloadHash ∈ seen then firstOfHash seen rest
    else f :: firstOfHash (seen ++ [f.payloadHash]) rest

theorem deduplicateAndSort_eq (fragments : List Fragment) :
    deduplicateAndSort fragments = (firstOfHash [] fragments).insertionSort
      (fun f g => f.identity.tokenSpan.1 ≤ g.identity.tokenSpan.1) := by
  have hfold : forall (fragments unique : List Fragment),
      fragments.foldl (fun unique f =>
        if f.payloadHash ∈ unique.map (fun g => g.payloadHash) then unique
        else unique ++ [f]) unique =
          unique ++ firstOfHash (unique.map (fun g => g.payloadHash)) fragments := by
    intro fragments
    induction fragments with
    | nil => exact fun unique => (List.append_nil unique).symm
    | cons f rest ih =>
      intro unique
      rw [List.foldl_cons, ih, firstOfHash]
      split_ifs
      · rfl
      · rw [List.map_append, List.append_assoc]
        rfl
  rw [deduplicateAndSort, hfold]
  rfl

theorem mem_of_mem_firstOfHash {seen : List String} (hf : f ∈ firstOfHash seen fragments) :
    f ∈ fragments ∧ ¬ f.payloadHash ∈ seen := by
  induction fragments generalizing seen with
  | nil => cases hf
  | cons g rest ih =>
    rw [firstOfHash] at hf
    split_ifs at hf with hseen
    · exact ⟨List.mem_cons_of_mem g (ih hf).left, (ih hf).right⟩
    · rcases List.mem_cons.mp hf with rfl | hf
      · exact ⟨List.mem_cons_self, hseen⟩
      · exact ⟨List.mem_cons_of_mem g (ih hf).left,
          fun hmem => (ih hf).right (List.mem_append_left _ hmem)⟩

theorem mem_deduplicateAndSort (hf : f ∈ deduplicateAndSort fragments) : f ∈ fragments := by
  rw [deduplicateAndSort_eq, List.mem_insertionSort] at hf
  exact (mem_of_mem_firstOfHash hf).left

theorem le_walkPrefix (matched : Int) (fragments : List Fragment) :
    matched ≤ (walkPrefix matched fragments).1 := by
  induction fragments generalizing matched with
  | nil => exact le_refl matched
  | cons f rest ih =>
    rw [walkPrefix]
    split_ifs with hstart
    · exact le_refl matched
    · have hspan := f.identity.tokenSpan_valid.right.right
      have := ih (f.identity.tokenSpan.2 + 1)
      simp only
      omega

namespace MemoryService

variable {sigma tau pi : Type} {m : MemoryService sigma tau pi} {caller : Caller}

def PlainCovers (m : MemoryService sigma tau pi) : Prop :=
  forall handle hashes, m.covers.get? handle = some hashes ->
    forall h, h ∈ hashes -> ¬ keySeparator ∈ h.toList

variable [InventoryHash] [ContentStore sigma] [LowerTier tau] [EvictionPolicy pi] [TokenHash]

def lookupFragments (m : MemoryService sigma tau pi) (tokens : List Int) (modelId : String)
    (caller : Caller) : List Fragment :=
  deduplicateAndSort
    ((m.reconstructor caller false (fun _ => 0)).assemble tokens modelId).assembled

def freshAnswer (m : MemoryService sigma tau pi) (tokens : List Int) (modelId : String)
    (caller : Caller) : LookupAnswer :=
  let walked := walkPrefix 0 (m.lookupFragments tokens modelId caller)
  lookupAnswer walked.1 tokens.length walked.2 false

theorem mem_lookupFragments (hindex : m.node.indexSystem.WellBuilt) {tokens : List Int}
    {modelId : String} (hf : f ∈ m.lookupFragments tokens modelId caller) :
    (m.reconstructor caller false (fun _ => 0)).Takes tokens modelId f :=
  Reconstructor.takes_of_mem_assembled hindex f (mem_deduplicateAndSort hf)

theorem lookupFragments_of_other_model (hindex : m.node.indexSystem.WellBuilt)
    {modelId : String} (hmodel : forall f, f ∈ m.node.indexSystem.semantic.fragments ->
      f.identity.modelId ≠ modelId) (tokens : List Int) :
    m.lookupFragments tokens modelId caller = [] := by
  apply List.eq_nil_iff_forall_not_mem.mpr
  intro f hf
  have htakes := mem_lookupFragments hindex hf
  exact hmodel f htakes.left (htakes.modelId_eq rfl)

variable [PrefixDigest]

theorem lookupUncached_answer (m : MemoryService sigma tau pi) (tokens : List Int)
    (modelId : String) (caller : Caller) (mintedAt now : ℚ) :
    (m.lookupUncached tokens modelId caller mintedAt now).1 =
      .ok (m.freshAnswer tokens modelId caller) := by
  rcases Reconstructor.rebuildContext_idle (r := m.reconstructor caller false (fun _ => now))
    (fun _ _ => rfl) tokens modelId (m.node, 0) with ⟨ratio, missing, invoked, hresult⟩
  unfold lookupUncached rebuild
  rw [hresult]
  simp only
  split_ifs <;> rfl

section

variable (tokens : List Int) (modelId : String) (lookedUpAt mintedAt now : ℚ)

theorem prefixLookup_of_miss
    (hmiss : (m.prefixCache.lookup (cacheKey caller.tenant modelId) tokens
      lookedUpAt).1.handle = none) :
    (m.prefixLookup tokens modelId caller lookedUpAt mintedAt now).1 =
      .ok (m.freshAnswer tokens modelId caller) := by
  unfold MemoryService.prefixLookup
  simp only [hmiss]
  exact lookupUncached_answer _ tokens modelId caller mintedAt now

theorem prefixLookup_of_handle {handle : KVHandle}
    (hlooked : (m.prefixCache.lookup (cacheKey caller.tenant modelId) tokens
      lookedUpAt).1.handle = some handle) :
    (m.prefixLookup tokens modelId caller lookedUpAt mintedAt now).1 =
      .ok (
        if m.covers.getD handle.handle [] ≠ [] ∧
            (m.covers.getD handle.handle []).all
              (fun h => (m.node.locate h caller).isSome) then
          lookupAnswer (m.prefixCache.lookup (cacheKey caller.tenant modelId) tokens
            lookedUpAt).1.tokenLen tokens.length (m.covers.getD handle.handle []) true
        else m.freshAnswer tokens modelId caller) := by
  unfold MemoryService.prefixLookup
  simp only [hlooked]
  split_ifs
  · rfl
  · exact lookupUncached_answer _ tokens modelId caller mintedAt now

end

theorem prefixLookup_nonneg (m : MemoryService sigma tau pi) (caller : Caller)
    (tokens : List Int) (modelId : String) (lookedUpAt mintedAt now : ℚ) :
    exists answer, (m.prefixLookup tokens modelId caller lookedUpAt mintedAt now).1 =
      .ok answer ∧ 0 ≤ answer.matchedTokens := by
  have hfresh : 0 ≤ (m.freshAnswer tokens modelId caller).matchedTokens := le_walkPrefix 0 _
  cases hlooked :
      (m.prefixCache.lookup (cacheKey caller.tenant modelId) tokens lookedUpAt).1.handle with
  | none => exact ⟨_, prefixLookup_of_miss _ _ _ _ _ hlooked, hfresh⟩
  | some handle =>
    refine ⟨_, prefixLookup_of_handle _ _ _ _ _ hlooked, ?_⟩
    split_ifs
    · exact Int.natCast_nonneg _
    · exact hfresh

theorem prefixLookup_of_other_model (hindex : m.node.indexSystem.WellBuilt)
    {modelId : String} (hmodel : forall f, f ∈ m.node.indexSystem.semantic.fragments ->
      f.identity.modelId ≠ modelId)
    (hcache : forall e, e ∈ m.prefixCache.byHandle.values ->
      e.handle.modelId ≠ cacheKey caller.tenant modelId)
    (tokens : List Int) (lookedUpAt mintedAt now : ℚ) :
    (m.prefixLookup tokens modelId caller lookedUpAt mintedAt now).1 =
      .ok (lookupAnswer 0 tokens.length [] false) := by
  rw [prefixLookup_of_miss tokens modelId lookedUpAt mintedAt now
    (PrefixCache.lookup_of_other_model hcache tokens lookedUpAt), freshAnswer,
    lookupFragments_of_other_model hindex hmodel]
  rfl

end MemoryService

end Services
end Membrane
