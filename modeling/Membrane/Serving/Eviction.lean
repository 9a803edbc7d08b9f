import Membrane.Store.TableInvariant
import Membrane.Serving.Node

/-!
# What an eviction does

Every removal of a node, single or part of an eviction, is described by one
relation: which fragments left, what remains, and what became of the payloads.
The relation composes, so the loops of the eviction stages are described by the
same relation as one removal.
-/

namespace Membrane
namespace Serving

open Foundation Data Store

def totalBytes (entries : List (String × Fragment)) : Int :=
  (entries.map (fun entry => entry.2.payloadSize)).sum

theorem totalBytes_nonneg (entries : List (String × Fragment)) :
    0 ≤ totalBytes entries := by
  apply List.sum_nonneg
  intro size hsize
  rcases List.mem_map.mp hsize with ⟨entry, _hentry, heq⟩
  rw [← heq]
  exact entry.2.payloadSize_nonneg

theorem totalBytes_append (entries others : List (String × Fragment)) :
    totalBytes (entries ++ others) = totalBytes entries + totalBytes others := by
  unfold totalBytes
  rw [List.map_append, List.sum_append]

def Uses (fragments : Dict String Fragment) (ref : String) : Prop :=
  exists k f, fragments.get? k = some f ∧ f.payloadRef = some ref

variable {k : String} {f : Fragment} {targetBytes freed : Int} {keys : List String}

theorem Uses.erase {fragments : Dict String Fragment} {ref : String}
    (hf : fragments.get? k = some f) (hne : f.payloadRef ≠ some ref) (h : Uses fragments ref) :
    Uses (fragments.erase k) ref := by
  rcases h with ⟨j, g, hg, hgref⟩
  have hjk : j ≠ k := by
    intro hjk
    rw [hjk, hf] at hg
    cases hg
    exact hne hgref
  exact ⟨j, g, by rw [Dict.get?_erase, if_neg hjk]; exact hg, hgref⟩

namespace Node

variable {sigma tau pi : Type}

/-- The parts of a node that no removal touches. -/
structure Frame (n n' : Node sigma tau pi) : Prop where
  nodeId : n'.nodeId = n.nodeId
  maxMemoryBytes : n'.maxMemoryBytes = n.maxMemoryBytes
  indexSystem : n'.indexSystem = n.indexSystem
  graph : n'.graph = n.graph
  admissionPolicy : n'.admissionPolicy = n.admissionPolicy
  quotas : n'.quotas = n.quotas
  tierPolicy : n'.tierPolicy = n.tierPolicy
  evictionPolicy : n'.evictionPolicy = n.evictionPolicy
  selectedTiers : n'.selectedTiers = n.selectedTiers
  lowerTier : n.lowerTier = none -> n'.lowerTier = none

theorem Frame.refl (n : Node sigma tau pi) : Frame n n :=
  ⟨rfl, rfl, rfl, rfl, rfl, rfl, rfl, rfl, rfl, fun h => h⟩

theorem Frame.trans {n₁ n₂ n₃ : Node sigma tau pi} (h₁ : Frame n₁ n₂)
    (h₂ : Frame n₂ n₃) : Frame n₁ n₃ where
  nodeId := h₂.nodeId.trans h₁.nodeId
  maxMemoryBytes := h₂.maxMemoryBytes.trans h₁.maxMemoryBytes
  indexSystem := h₂.indexSystem.trans h₁.indexSystem
  graph := h₂.graph.trans h₁.graph
  admissionPolicy := h₂.admissionPolicy.trans h₁.admissionPolicy
  quotas := h₂.quotas.trans h₁.quotas
  tierPolicy := h₂.tierPolicy.trans h₁.tierPolicy
  evictionPolicy := h₂.evictionPolicy.trans h₁.evictionPolicy
  selectedTiers := h₂.selectedTiers.trans h₁.selectedTiers
  lowerTier h := h₂.lowerTier (h₁.lowerTier h)

/-- Deleting a key drops its bytes and no others. -/
def DeletesApart (sigma : Type) [PayloadStore sigma] : Prop :=
  forall (s : sigma) k j, PayloadStore.get (PayloadStore.delete s k).2 j =
    if j = k then none else PayloadStore.get s j

theorem orphan_eq_some_iff (n : Node sigma tau pi) (f : Fragment) (ref : String) :
    n.orphan f = some ref <-> f.payloadRef = some ref ∧ n.table.references ref = 0 := by
  unfold orphan
  rw [Option.filter_eq_some_iff, decide_eq_true_iff]

theorem get_withoutPayload [PayloadStore sigma] (hapart : DeletesApart sigma)
    (n : Node sigma tau pi) (f : Fragment) (ref : String) :
    PayloadStore.get (n.withoutPayload f).contentStore ref =
      if f.payloadRef = some ref ∧ n.table.references ref = 0 then none
      else PayloadStore.get n.contentStore ref := by
  simp only [← orphan_eq_some_iff]
  unfold withoutPayload
  cases n.orphan f with
  | none => simp
  | some r =>
    simp only [hapart n.contentStore r ref, Option.some.injEq]
    exact if_congr eq_comm rfl rfl

theorem unlessFault_eq_ok {alpha : Type} {n : Node sigma tau pi} {fault : Option String}
    {result value : alpha} (h : n.unlessFault fault result = .ok value) :
    fault = none ∧ result = value := by
  cases fault with
  | none =>
    cases h
    exact ⟨rfl, rfl⟩
  | some message => cases h

theorem unlessFault_eq_error {alpha : Type} {n : Node sigma tau pi} {fault : Option String}
    {result : alpha} {raised : Raised sigma tau pi}
    (h : n.unlessFault fault result = .error raised) :
    fault ≠ none ∧ raised.node = n := by
  cases fault with
  | none => cases h
  | some message =>
    cases h
    exact ⟨Option.some_ne_none message, rfl⟩

def Addressed [PayloadStore sigma] (n : Node sigma tau pi) : Prop :=
  forall k f, n.fragments.get? k = some f -> payloadFault sigma f = none

theorem payloadFault_of_total [ContentStore sigma] (f : Fragment) :
    payloadFault sigma f = none := by
  unfold payloadFault
  rw [Option.bind_eq_none_iff]
  exact fun ref _ => ContentStore.fault_eq ref

theorem dropPayload_of_total [ContentStore sigma] (n : Node sigma tau pi) (f : Fragment) :
    n.dropPayload f = .ok (n.withoutPayload f) := by
  have hnone : (n.orphan f).bind (PayloadStore.fault sigma) = none :=
    Option.bind_eq_none_iff.mpr (fun ref _ => ContentStore.fault_eq ref)
  unfold dropPayload
  rw [hnone]
  rfl

theorem addressed [ContentStore sigma] (n : Node sigma tau pi) : n.Addressed :=
  fun _ f _ => payloadFault_of_total f

variable [InventoryHash]

/-- The bookkeeping of the table is right and its access times are those of the
resident fragments. -/
structure Consistent (n : Node sigma tau pi) : Prop where
  bookkeeping : n.table.Bookkeeping
  tracked : n.table.AccessTracked

structure Invariant (n : Node sigma tau pi) : Prop extends Consistent n where
  capacity : n.table.memoryUsage ≤ n.maxMemoryBytes

theorem create_invariant (config : Config sigma tau pi) : (create config).Invariant where
  bookkeeping := FragmentTable.bookkeeping_create
  tracked := FragmentTable.accessTracked_create
  capacity := Int.natCast_nonneg config.maxMemoryBytes

theorem Consistent.not_uses_iff {n : Node sigma tau pi} (hn : n.Consistent) (ref : String) :
    n.table.references ref = 0 <-> ¬ Uses n.fragments ref := by
  rw [hn.bookkeeping.references_eq ref]
  have hpos := payloadUsers_pos_iff n.table.fragments ref
  constructor
  · intro hzero huses
    have := hpos.mpr huses
    omega
  · intro hnone
    by_contra hzero
    exact hnone (hpos.mp (by omega))

theorem Consistent.memoryUsage_of_empty {n : Node sigma tau pi} (hn : n.Consistent)
    (hempty : forall k, ¬ k ∈ n.fragments) : n.table.memoryUsage = 0 :=
  hn.bookkeeping.memory.trans (residentBytes_of_empty hempty)

variable [PayloadStore sigma]

/-- The victims left the first node, and the second node is what remains.  What became
of the payloads is known of a store that keeps the keys apart. -/
structure Evicts (n : Node sigma tau pi) (victims : List (String × Fragment))
    (n' : Node sigma tau pi) : Prop where
  frame : Frame n n'
  consistent : n'.Consistent
  resident : forall k f, (k, f) ∈ victims -> n.fragments.get? k = some f
  remaining : forall k, n'.fragments.get? k =
    if k ∈ victims.map Prod.fst then none else n.fragments.get? k
  memory : n'.table.memoryUsage = n.table.memoryUsage - totalBytes victims
  primary : forall k, k ∈ n'.table.primaryHashes <->
    k ∈ n.table.primaryHashes ∧ ¬ k ∈ victims.map Prod.fst
  faultless : forall ref, Uses n.fragments ref -> ¬ Uses n'.fragments ref ->
    PayloadStore.fault sigma ref = none
  orphaned_of : DeletesApart sigma -> forall ref, Uses n.fragments ref ->
    ¬ Uses n'.fragments ref -> PayloadStore.get n'.contentStore ref = none
  kept_of : DeletesApart sigma -> forall ref,
    (Uses n.fragments ref -> Uses n'.fragments ref) ->
    PayloadStore.get n'.contentStore ref = PayloadStore.get n.contentStore ref

namespace Evicts

variable {n n₁ n₂ n' : Node sigma tau pi} {victims others : List (String × Fragment)}

section

variable (h : Evicts n victims n')

include h

theorem get?_of_remaining (hf : n'.fragments.get? k = some f) :
    n.fragments.get? k = some f := by
  rw [h.remaining k] at hf
  by_cases hk : k ∈ victims.map Prod.fst
  · rw [if_pos hk] at hf
    cases hf
  · rwa [if_neg hk] at hf

theorem uses_of_remaining {ref : String}
    (href : Uses n'.fragments ref) : Uses n.fragments ref := by
  rcases href with ⟨k, f, hf, hfref⟩
  exact ⟨k, f, h.get?_of_remaining hf, hfref⟩

theorem mem_of_remaining (hk : k ∈ n'.fragments) :
    k ∈ n.fragments := by
  rcases (Dict.mem_iff_exists_get? _ k).mp hk with ⟨f, hf⟩
  exact Dict.mem_of_get? (h.get?_of_remaining hf)

theorem mem_remaining_iff (k : String) :
    k ∈ n'.fragments <-> k ∈ n.fragments ∧ ¬ k ∈ victims.map Prod.fst := by
  rw [Dict.mem_iff_exists_get?, Dict.mem_iff_exists_get?, h.remaining k]
  by_cases hk : k ∈ victims.map Prod.fst
  · simp [hk]
  · rw [if_neg hk]
    exact ⟨fun hf => ⟨hf, hk⟩, fun hf => hf.left⟩

theorem addressed (hn : n.Addressed) : n'.Addressed :=
  fun k f hf => hn k f (h.get?_of_remaining hf)

end

section TotalStores

variable {sigma : Type} [ContentStore sigma] {n n' : Node sigma tau pi}
variable (h : Evicts n victims n') (ref : String)

include h

theorem orphaned (huses : Uses n.fragments ref) (hnone : ¬ Uses n'.fragments ref) :
    ContentStore.get n'.contentStore ref = none :=
  h.orphaned_of ContentStore.get_delete ref huses hnone

theorem kept (huses : Uses n.fragments ref -> Uses n'.fragments ref) :
    ContentStore.get n'.contentStore ref = ContentStore.get n.contentStore ref :=
  h.kept_of ContentStore.get_delete ref huses

end TotalStores

theorem of_unchanged (hframe : Frame n n') (hconsistent : n'.Consistent)
    (hfragments : n'.fragments = n.fragments)
    (hmemory : n'.table.memoryUsage = n.table.memoryUsage)
    (hprimary : n'.table.primaryHashes = n.table.primaryHashes)
    (hstore : n'.contentStore = n.contentStore) : Evicts n [] n' where
  frame := hframe
  consistent := hconsistent
  resident k f h := by cases h
  remaining k := by rw [hfragments]; rfl
  memory := by rw [hmemory]; simp [totalBytes]
  primary k := by rw [hprimary]; simp
  faultless ref huses hnone := absurd huses (hfragments ▸ hnone)
  orphaned_of _ ref huses hnone := absurd huses (hfragments ▸ hnone)
  kept_of _ ref _ := by rw [hstore]

theorem refl (hn : n.Consistent) : Evicts n [] n :=
  of_unchanged (Frame.refl n) hn rfl rfl rfl rfl

theorem trans (h₁ : Evicts n victims n₁) (h₂ : Evicts n₁ others n₂) :
    Evicts n (victims ++ others) n₂ where
  frame := h₁.frame.trans h₂.frame
  consistent := h₂.consistent
  resident k f h := by
    rcases List.mem_append.mp h with h | h
    · exact h₁.resident k f h
    · exact h₁.get?_of_remaining (h₂.resident k f h)
  remaining k := by
    rw [h₂.remaining k, h₁.remaining k, List.map_append]
    by_cases hfirst : k ∈ victims.map Prod.fst
    · simp [hfirst]
    · by_cases hsecond : k ∈ others.map Prod.fst
      · simp [hsecond]
      · simp [hfirst, hsecond]
  memory := by
    rw [h₂.memory, h₁.memory, totalBytes_append]
    omega
  primary k := by
    rw [h₂.primary k, h₁.primary k, List.map_append, List.mem_append, not_or, and_assoc]
  faultless ref huses hnone := by
    by_cases hmid : Uses n₁.fragments ref
    · exact h₂.faultless ref hmid hnone
    · exact h₁.faultless ref huses hmid
  orphaned_of hapart ref huses hnone := by
    by_cases hmid : Uses n₁.fragments ref
    · exact h₂.orphaned_of hapart ref hmid hnone
    · rw [h₂.kept_of hapart ref (fun h => absurd h hmid)]
      exact h₁.orphaned_of hapart ref huses hmid
  kept_of hapart ref huses := by
    by_cases hfirst : Uses n.fragments ref
    · have hlast := huses hfirst
      rw [h₂.kept_of hapart ref (fun _ => hlast),
        h₁.kept_of hapart ref (fun _ => h₂.uses_of_remaining hlast)]
    · have hmid : ¬ Uses n₁.fragments ref := fun h => hfirst (h₁.uses_of_remaining h)
      rw [h₂.kept_of hapart ref (fun h => absurd h hmid),
        h₁.kept_of hapart ref (fun h => absurd h hfirst)]

theorem invariant (h : Evicts n victims n') (hn : n.Invariant) : n'.Invariant where
  bookkeeping := h.consistent.bookkeeping
  tracked := h.consistent.tracked
  capacity := by
    have hcapacity := hn.capacity
    have hfreed := totalBytes_nonneg victims
    rw [h.memory, h.frame.maxMemoryBytes]
    omega

end Evicts

/-!
# One removal
-/

variable {n n' : Node sigma tau pi}

theorem totalBytes_le_memoryUsage {victims : List (String × Fragment)}
    (h : Evicts n victims n') : totalBytes victims ≤ n.table.memoryUsage := by
  have hrest : 0 ≤ n'.table.memoryUsage := by
    rw [h.consistent.bookkeeping.memory]
    exact residentBytes_nonneg _
  have := h.memory
  omega

/-- A removal pops the key, tells the hook and drops the payload. -/
theorem removeFragment_eq_ok (h : n.removeFragment k = .ok (f, n')) :
    exists table, n.table.pop k = some (f, table) ∧
      ((n.popped k table).orphan f).bind (PayloadStore.fault sigma) = none ∧
      n' = (n.popped k table).withoutPayload f := by
  unfold removeFragment at h
  cases hpop : n.table.pop k with
  | none =>
    rw [hpop] at h
    cases h
  | some entry =>
    simp only [hpop] at h
    cases hdrop : (n.popped k entry.2).dropPayload entry.1 with
    | error raised =>
      rw [hdrop] at h
      cases h
    | ok removed =>
      rw [hdrop] at h
      cases h
      rcases unlessFault_eq_ok hdrop with ⟨hfault, hremoved⟩
      exact ⟨entry.2, rfl, hfault, hremoved.symm⟩

/-- A removal raises before it does anything, or when the payload of the popped fragment
has no address. -/
theorem removeFragment_eq_error {raised : Raised sigma tau pi}
    (h : n.removeFragment k = .error raised) :
    (¬ k ∈ n.fragments ∧ raised.node = n) ∨
      exists g table, n.table.pop k = some (g, table) ∧
        payloadFault sigma g ≠ none ∧ raised.node = n.popped k table := by
  unfold removeFragment at h
  cases hpop : n.table.pop k with
  | none =>
    rw [hpop] at h
    cases h
    exact Or.inl ⟨(FragmentTable.pop_eq_none_iff n.table k).mp hpop, rfl⟩
  | some entry =>
    simp only [hpop] at h
    cases hdrop : (n.popped k entry.2).dropPayload entry.1 with
    | ok removed =>
      rw [hdrop] at h
      cases h
    | error error =>
      rw [hdrop] at h
      cases h
      rcases unlessFault_eq_error hdrop with ⟨hfault, hnode⟩
      refine Or.inr ⟨entry.1, entry.2, rfl, fun hnone => hfault ?_, hnode⟩
      rw [Option.bind_eq_none_iff]
      intro ref href
      exact Option.bind_eq_none_iff.mp hnone ref
        ((orphan_eq_some_iff _ _ _).mp href).left

theorem removeFragment_of_not_mem (hk : ¬ k ∈ n.fragments) :
    n.removeFragment k = .error { error := NodeError.missingKey k, node := n } := by
  unfold removeFragment
  rw [(FragmentTable.pop_eq_none_iff n.table k).mpr hk]

theorem removeFragment_of_mem (haddressed : n.Addressed) (hk : k ∈ n.fragments) :
    exists f n', n.removeFragment k = .ok (f, n') := by
  cases hremove : n.removeFragment k with
  | ok removed => exact ⟨removed.1, removed.2, rfl⟩
  | error raised =>
    rcases removeFragment_eq_error hremove with ⟨hnot, _⟩ | ⟨g, table, hpop, hfault, _⟩
    · exact absurd hk hnot
    · exact absurd (haddressed k g (FragmentTable.pop_get? hpop)) hfault

theorem raised_node_of_total {sigma : Type} [ContentStore sigma] {n : Node sigma tau pi}
    {raised : Raised sigma tau pi} (h : n.removeFragment k = .error raised) :
    raised.node = n := by
  rcases removeFragment_eq_error h with ⟨_, hsame⟩ | ⟨g, _, _, hfault, _⟩
  · exact hsame
  · exact absurd (payloadFault_of_total g) hfault

theorem removeFragment_consistent (hn : n.Consistent)
    (h : n.removeFragment k = .ok (f, n')) : n'.Consistent := by
  rcases removeFragment_eq_ok h with ⟨table, hpop, _, hn'⟩
  have htable : n'.table = table := by rw [hn']; rfl
  constructor
  · rw [htable]
    exact FragmentTable.pop_bookkeeping hn.bookkeeping hpop
  · rw [htable]
    exact FragmentTable.pop_accessTracked hn.tracked hpop

theorem removeFragment_fragments (h : n.removeFragment k = .ok (f, n')) :
    n.fragments.get? k = some f ∧ n'.fragments = n.fragments.erase k := by
  rcases removeFragment_eq_ok h with ⟨table, hpop, _, hn'⟩
  constructor
  · exact FragmentTable.pop_get? hpop
  · rw [hn']
    exact FragmentTable.pop_fragments hpop

section

variable (hn : n.Consistent)

include hn

theorem removeFragment_get (hapart : DeletesApart sigma) (h : n.removeFragment k = .ok (f, n'))
    (ref : String) [Decidable (Uses n'.fragments ref)] :
    PayloadStore.get n'.contentStore ref =
      if f.payloadRef = some ref ∧ ¬ Uses n'.fragments ref then none
      else PayloadStore.get n.contentStore ref := by
  have hunused := (removeFragment_consistent hn h).not_uses_iff ref
  rcases removeFragment_eq_ok h with ⟨table, hpop, _, hn'⟩
  simp only [← hunused]
  rw [hn']
  exact get_withoutPayload hapart _ f ref

theorem removeFragment_evicts (h : n.removeFragment k = .ok (f, n')) :
    Evicts n [(k, f)] n' := by
  classical
  have hconsistent := removeFragment_consistent hn h
  rcases removeFragment_fragments h with ⟨hf, hfragments⟩
  rcases removeFragment_eq_ok h with ⟨table, hpop, hfault, hn'⟩
  have hlast : forall ref, Uses n.fragments ref -> ¬ Uses n'.fragments ref ->
      f.payloadRef = some ref := by
    intro ref huses hnone
    by_contra hne
    rw [hfragments] at hnone
    exact hnone (huses.erase hf hne)
  constructor
  · rw [hn']
    exact ⟨rfl, rfl, rfl, rfl, rfl, rfl, rfl, rfl, rfl, fun h => h⟩
  · exact hconsistent
  · intro j g hg
    cases List.mem_singleton.mp hg
    exact hf
  · intro j
    rw [hfragments, Dict.get?_erase]
    simp
  · rw [hconsistent.bookkeeping.memory, hn.bookkeeping.memory]
    unfold fragments at hfragments hf
    rw [hfragments, residentBytes_erase hf]
    simp [totalBytes]
  · intro j
    have hprimary : n'.table.primaryHashes = n.table.primaryHashes.erase k := by
      rw [hn']
      rw [((FragmentTable.pop_eq_some_iff _ _ _ _).mp hpop).right]
      rfl
    rw [hprimary, and_comm]
    simp
  · intro ref huses hnone
    have hzero := (hconsistent.not_uses_iff ref).mpr hnone
    rw [hn'] at hzero
    exact Option.bind_eq_none_iff.mp hfault ref
      ((orphan_eq_some_iff _ _ _).mpr ⟨hlast ref huses hnone, hzero⟩)
  · intro hapart ref huses hnone
    rw [removeFragment_get hn hapart h ref, if_pos ⟨hlast ref huses hnone, hnone⟩]
  · intro hapart ref huses
    rw [removeFragment_get hn hapart h ref, if_neg]
    rintro ⟨href, hnone⟩
    exact hnone (huses ⟨k, f, hf, href⟩)

/-!
# The eviction stages

A stage removes resident keys in the order it is given until the target is
reached.  It can fail only at a payload without an address: a key that is resident
when the stage begins is still resident when its turn comes.
-/

theorem demoted_evicts [LowerTier tau] (k : String) :
    Evicts n [] (n.demoted k) :=
  Evicts.of_unchanged
    ⟨rfl, rfl, rfl, rfl, rfl, rfl, rfl, rfl, rfl, fun h => by simp [demoted, h]⟩
    ⟨hn.bookkeeping, hn.tracked⟩ rfl rfl rfl rfl

theorem mergeReads_evicts : Evicts n [] n.mergeReads :=
  Evicts.of_unchanged
    ⟨rfl, rfl, rfl, rfl, rfl, rfl, rfl, rfl, rfl, fun h => h⟩
    ⟨FragmentTable.recency_bookkeeping hn.bookkeeping,
      FragmentTable.recency_accessTracked hn.tracked⟩ rfl rfl rfl rfl

theorem fireEvictionCallbacks_evicts (evicted : List Fragment)
    (reason : EvictionReason) : Evicts n [] (n.fireEvictionCallbacks evicted reason) :=
  Evicts.of_unchanged
    ⟨rfl, rfl, rfl, rfl, rfl, rfl, rfl, rfl, rfl, fun h => h⟩
    ⟨hn.bookkeeping, hn.tracked⟩ rfl rfl rfl rfl

end

theorem finishEviction_evicts {victims : List (String × Fragment)}
    (h : Evicts n victims n') (reason : EvictionReason) :
    Evicts n victims (n'.finishEviction victims reason).2 := by
  have hfired := h.trans
    (fireEvictionCallbacks_evicts h.consistent (victims.map Prod.snd) reason)
  rwa [List.append_nil] at hfired

/-- The outcome of a stage that was given some keys and had already freed some
bytes. -/
structure Stage (n : Node sigma tau pi) (targetBytes freed : Int) (keys : List String)
    (e : Evicted sigma tau pi) : Prop where
  evicts : Evicts n e.victims e.node
  freed_eq : e.freed = freed + totalBytes e.victims
  among : forall k, k ∈ e.victims.map Prod.fst -> k ∈ keys
  enough : targetBytes ≤ e.freed ∨ forall k, k ∈ keys -> k ∈ e.victims.map Prod.fst

theorem Stage.stop (hn : n.Consistent) (h : targetBytes ≤ freed ∨ keys = []) :
    Stage n targetBytes freed keys { victims := [], freed := freed, node := n } where
  evicts := Evicts.refl hn
  freed_eq := by simp [totalBytes]
  among k hk := by cases hk
  enough := by
    rcases h with h | h
    · exact Or.inl h
    · right
      intro k hk
      rw [h] at hk
      cases hk

theorem Stage.cons {next : Node sigma tau pi} {rest : List String} {tail : Evicted sigma tau pi}
    (hfirst : Evicts n [(k, f)] next)
    (htail : Stage next targetBytes (freed + f.payloadSize) rest tail) :
    Stage n targetBytes freed (k :: rest) { tail with victims := (k, f) :: tail.victims } where
  evicts := hfirst.trans htail.evicts
  freed_eq := by
    rw [htail.freed_eq]
    simp only [totalBytes, List.map_cons, List.sum_cons]
    omega
  among _ hj := List.cons_subset_cons k htail.among hj
  enough := htail.enough.imp_right (fun h _ hj => List.cons_subset_cons k h hj)

variable [LowerTier tau]

/-- Evicting one key succeeds only as a removal, after a demotion or without one. -/
theorem evictKey_eq_ok {demoting : Bool} (h : n.evictKey demoting k = .ok (f, n')) :
    (if demoting then n.demoted k else n).removeFragment k = .ok (f, n') := by
  unfold evictKey at h
  cases demoting with
  | false => exact h
  | true =>
    simp only [if_true] at h ⊢
    cases hdemote : n.demote k with
    | error raised =>
      rw [hdemote] at h
      cases h
    | ok demoted =>
      rw [hdemote] at h
      rw [(unlessFault_eq_ok hdemote).right]
      exact h

theorem evictKey_eq_error {demoting : Bool} {raised : Raised sigma tau pi}
    (h : n.evictKey demoting k = .error raised) :
    raised.node = n ∨
      (if demoting then n.demoted k else n).removeFragment k = .error raised := by
  unfold evictKey at h
  cases demoting with
  | false => exact Or.inr h
  | true =>
    simp only [if_true] at h ⊢
    cases hdemote : n.demote k with
    | error error =>
      rw [hdemote] at h
      cases h
      exact Or.inl (unlessFault_eq_error hdemote).right
    | ok demoted =>
      rw [hdemote] at h
      rw [(unlessFault_eq_ok hdemote).right]
      exact Or.inr h

theorem evictKey_of_addressed (haddressed : n.Addressed) (demoting : Bool) (k : String) :
    n.evictKey demoting k = (if demoting then n.demoted k else n).removeFragment k := by
  unfold evictKey demote
  cases demoting with
  | false => rfl
  | true =>
    have hnone : (if n.lowerTier.isSome then
        (n.table.fragments.get? k).bind (payloadFault sigma) else none) = none := by
      split_ifs
      · exact Option.bind_eq_none_iff.mpr (fun f hf => haddressed k f hf)
      · rfl
    rw [hnone]
    rfl

def Fails {alpha : Type} (n : Node sigma tau pi)
    (result : Except (Raised sigma tau pi) alpha) : Prop :=
  ¬ n.Addressed ∧ exists raised, result = .error raised

theorem evictKeys_cases (demoting : Bool) (targetBytes : Int) (hnodup : keys.Nodup)
    (hn : n.Consistent) (hresident : forall k, k ∈ keys -> k ∈ n.fragments) (freed : Int) :
    (exists e, evictKeys demoting false targetBytes keys freed n = .ok e ∧
        Stage n targetBytes freed keys e) ∨
      n.Fails (evictKeys demoting false targetBytes keys freed n) := by
  induction keys generalizing n freed with
  | nil => exact Or.inl ⟨_, rfl, Stage.stop hn (Or.inr rfl)⟩
  | cons k rest ih =>
    unfold evictKeys
    simp only [Bool.false_eq_true, false_and, if_false]
    by_cases henough : targetBytes ≤ freed
    · rw [if_pos henough]
      exact Or.inl ⟨_, rfl, Stage.stop hn (Or.inl henough)⟩
    rw [if_neg henough]
    have hdemoted : Evicts n [] (if demoting then n.demoted k else n) := by
      cases demoting with
      | false => exact Evicts.refl hn
      | true => exact demoted_evicts hn k
    have hk := (hdemoted.mem_remaining_iff k).mpr
      ⟨hresident k List.mem_cons_self, by simp⟩
    cases hevict : n.evictKey demoting k with
    | error raised =>
      refine Or.inr ⟨fun haddressed => ?_, raised, rfl⟩
      rcases removeFragment_of_mem (hdemoted.addressed haddressed) hk with
        ⟨f, next, hremove⟩
      rw [evictKey_of_addressed haddressed, hremove] at hevict
      cases hevict
    | ok removed =>
      have hfirst : Evicts n [(k, removed.1)] removed.2 :=
        hdemoted.trans (removeFragment_evicts hdemoted.consistent (evictKey_eq_ok hevict))
      have hrest : forall j, j ∈ rest -> j ∈ removed.2.fragments := by
        intro j hj
        apply (hfirst.mem_remaining_iff j).mpr
        constructor
        · exact hresident j (List.mem_cons_of_mem k hj)
        · intro hjk
          rw [List.mem_singleton.mp hjk] at hj
          exact (List.nodup_cons.mp hnodup).left hj
      rcases ih (List.nodup_cons.mp hnodup).right hfirst.consistent hrest
        (freed + removed.1.payloadSize) with
          ⟨tail, htail, hstage⟩ | ⟨hfault, raised, hraised⟩
      · simp only [htail]
        exact Or.inl ⟨_, rfl, Stage.cons hfirst hstage⟩
      · simp only [hraised]
        exact Or.inr ⟨fun haddressed => hfault (hfirst.addressed haddressed), raised, rfl⟩

theorem evictExpired_cases (hn : n.Consistent) (targetBytes : Int) (now : ℚ) :
    (exists e, n.evictExpired targetBytes now = .ok e ∧
        Stage n targetBytes 0 (n.table.expired now) e) ∨
      n.Fails (n.evictExpired targetBytes now) := by
  apply evictKeys_cases false targetBytes _ hn
  · intro k hk
    exact List.mem_of_mem_filter hk
  · exact n.table.fragments.keys_nodup.filter _

theorem evictExpired_stage (haddressed : n.Addressed) (hn : n.Consistent)
    (targetBytes : Int) (now : ℚ) :
    exists e, n.evictExpired targetBytes now = .ok e ∧
      Stage n targetBytes 0 (n.table.expired now) e :=
  (evictExpired_cases hn targetBytes now).resolve_right (fun h => h.left haddressed)

theorem sweepExpired_evicts (haddressed : n.Addressed) (hn : n.Consistent) (now : ℚ) :
    exists victims n', n.sweepExpired now = .ok (victims.map Prod.fst, n') ∧
      Evicts n victims n' := by
  rcases evictExpired_stage haddressed hn (n.table.memoryUsage + 1) now with
    ⟨first, hfirst, hstage⟩
  unfold sweepExpired
  simp only [hfirst]
  exact ⟨first.victims, _, rfl,
    finishEviction_evicts hstage.evicts EvictionReason.expired⟩

section

variable (hempty : forall k, ¬ k ∈ n.fragments) (targetBytes : Int)

include hempty

theorem evictKeys_of_empty (keys : List String) (freed : Int) :
    evictKeys true true targetBytes keys freed n =
      .ok { victims := [], freed := freed, node := n } := by
  induction keys with
  | nil => rfl
  | cons k rest ih =>
    unfold evictKeys
    rw [if_pos ⟨rfl, hempty k⟩]
    exact ih

theorem evictSeeds_of_empty (seeds : List String) (freed : Int) :
    evictSeeds targetBytes seeds freed n =
      .ok { victims := [], freed := freed, node := n } := by
  induction seeds with
  | nil => rfl
  | cons k rest ih =>
    unfold evictSeeds
    split_ifs
    · rfl
    · rw [evictKeys_of_empty hempty]
      simp only [ih]
      rfl

end

variable [EvictionPolicy pi]

theorem evictLru_cases (hn : n.Consistent) (targetBytes : Int) (now : ℚ)
    {already : List String} (halready : forall k, k ∈ already -> ¬ k ∈ n.fragments) :
    (exists e, n.evictLru targetBytes now already = .ok e ∧
        Evicts n e.victims e.node ∧ e.freed = totalBytes e.victims ∧
        (targetBytes ≤ e.freed ∨ forall k, ¬ k ∈ e.node.fragments)) ∨
      n.Fails (n.evictLru targetBytes now already) := by
  have hmerged := mergeReads_evicts hn
  let candidates := n.fragments.entries.filter (fun entry => entry.1 ∉ already)
  have hperm := EvictionPolicy.order_perm n.evictionPolicy candidates
    n.mergeReads.table.accessTimes now
  have hsub : List.Sublist (candidates.map Prod.fst) n.fragments.keys :=
    (List.filter_sublist).map Prod.fst
  have hmem : forall k, k ∈ n.fragments -> k ∈ candidates.map Prod.fst := by
    intro k hk
    rcases List.mem_map.mp (show k ∈ n.fragments.entries.map Prod.fst from hk) with
      ⟨entry, hentry, hentryk⟩
    apply List.mem_map.mpr
    refine ⟨entry, List.mem_filter.mpr ⟨hentry, ?_⟩, hentryk⟩
    rw [hentryk]
    exact decide_eq_true (fun h => halready k h hk)
  rcases evictKeys_cases true targetBytes
    (hperm.nodup_iff.mpr (n.fragments.keys_nodup.sublist hsub)) hmerged.consistent
    (fun k hk => hsub.subset (hperm.subset hk)) 0 with ⟨e, he, hstage⟩ | ⟨hfault, hraised⟩
  · refine Or.inl ⟨e, he, hmerged.trans hstage.evicts, ?_, ?_⟩
    · rw [hstage.freed_eq, Int.zero_add]
    · rcases hstage.enough with henough | hall
      · exact Or.inl henough
      · right
        intro k hk
        rcases (hstage.evicts.mem_remaining_iff k).mp hk with ⟨hresident, hleft⟩
        exact hleft (hall k (hperm.symm.subset (hmem k hresident)))
  · exact Or.inr ⟨fun haddressed => hfault (hmerged.addressed haddressed), hraised⟩

/-!
# Evictions
-/

/-- The stages of an eviction.  The policy is asked only when the expired fragments
were not enough. -/
def Staged (n : Node sigma tau pi) (targetBytes : Int) (now : ℚ) : Prop :=
  exists first, n.evictExpired targetBytes now = .ok first ∧
    Stage n targetBytes 0 (n.table.expired now) first ∧
    ((targetBytes ≤ first.freed ∧ n.evict targetBytes now = .ok
        (first.node.finishEviction first.victims EvictionReason.capacity)) ∨
      (first.freed < targetBytes ∧ exists second,
        first.node.evictLru (targetBytes - first.freed) now
          (first.victims.map Prod.fst) = .ok second ∧
        Evicts first.node second.victims second.node ∧
        (targetBytes ≤ totalBytes (first.victims ++ second.victims) ∨
          forall k, ¬ k ∈ second.node.fragments) ∧
        n.evict targetBytes now = .ok (second.node.finishEviction
          (first.victims ++ second.victims) EvictionReason.capacity)))

theorem evict_cases (hn : n.Consistent) (hpositive : 0 < targetBytes) (now : ℚ) :
    n.Staged targetBytes now ∨ n.Fails (n.evict targetBytes now) := by
  rcases evictExpired_cases hn targetBytes now with
    ⟨first, hfirst, hstage⟩ | ⟨hfault, raised, hraised⟩
  · have hfreed : first.freed = totalBytes first.victims := by
      rw [hstage.freed_eq, Int.zero_add]
    unfold Staged evict
    rw [if_neg (not_le.mpr hpositive)]
    simp only [hfirst]
    split_ifs with henough
    · exact Or.inl ⟨first, rfl, hstage, Or.inl ⟨henough, rfl⟩⟩
    have hgone : forall k, k ∈ first.victims.map Prod.fst -> ¬ k ∈ first.node.fragments :=
      fun k hk hmem => ((hstage.evicts.mem_remaining_iff k).mp hmem).right hk
    rcases evictLru_cases hstage.evicts.consistent (targetBytes - first.freed) now hgone
      with ⟨second, hsecond, hevicts, hsecondFreed, hrest⟩ | ⟨hfault, raised, hraised⟩
    · have hboth : totalBytes (first.victims ++ second.victims) =
          first.freed + second.freed := by
        rw [hfreed, hsecondFreed, totalBytes_append]
      refine Or.inl ⟨first, rfl, hstage,
        Or.inr ⟨not_le.mp henough, second, hsecond, hevicts, ?_, ?_⟩⟩
      · rcases hrest with hle | hempty
        · exact Or.inl (by omega)
        · exact Or.inr hempty
      · simp only [hsecond]
        split_ifs
        · rfl
        have hempty : forall k, ¬ k ∈ second.node.fragments := by
          rcases hrest with hle | hempty
          · omega
          · exact hempty
        unfold evictGraphNeighbors
        rw [evictSeeds_of_empty hempty]
        simp only [List.append_nil]
    · simp only [hraised]
      exact Or.inr ⟨fun haddressed => hfault (hstage.evicts.addressed haddressed), raised, rfl⟩
  · refine Or.inr ⟨hfault, raised, ?_⟩
    unfold evict
    rw [if_neg (not_le.mpr hpositive)]
    simp only [hraised]

theorem evict_stages (haddressed : n.Addressed) (hn : n.Consistent)
    (hpositive : 0 < targetBytes) (now : ℚ) : n.Staged targetBytes now :=
  (evict_cases hn hpositive now).resolve_right (fun h => h.left haddressed)

theorem Staged.evicts {now : ℚ} (h : n.Staged targetBytes now) :
    exists victims n', n.evict targetBytes now = .ok (victims.map Prod.fst, n') ∧
      Evicts n victims n' ∧
      (targetBytes ≤ totalBytes victims ∨ forall k, ¬ k ∈ n'.fragments) := by
  rcases h with ⟨first, _, hstage, hcases⟩
  have hfreed : first.freed = totalBytes first.victims := by
    rw [hstage.freed_eq, Int.zero_add]
  rcases hcases with ⟨henough, hevict⟩ | ⟨_, second, _, hevicts, henough, hevict⟩
  · exact ⟨first.victims, _, hevict,
      finishEviction_evicts hstage.evicts EvictionReason.capacity,
      Or.inl (hfreed ▸ henough)⟩
  · exact ⟨first.victims ++ second.victims, _, hevict,
      finishEviction_evicts (hstage.evicts.trans hevicts) EvictionReason.capacity, henough⟩

theorem evict_evicts (haddressed : n.Addressed) (hn : n.Consistent) (targetBytes : Int)
    (now : ℚ) :
    exists victims n', n.evict targetBytes now = .ok (victims.map Prod.fst, n') ∧
      Evicts n victims n' ∧
      (targetBytes ≤ totalBytes victims ∨ forall k, ¬ k ∈ n'.fragments) := by
  by_cases htarget : targetBytes ≤ 0
  · unfold evict
    rw [if_pos htarget]
    exact ⟨[], n, rfl, Evicts.refl hn, Or.inl htarget⟩
  exact (evict_stages haddressed hn (not_le.mp htarget) now).evicts

/-- Whoever evicts more than there is deletes every payload, and an eviction that returns
has found an address for each of them. -/
theorem addressed_of_evict_all (hn : n.Consistent) {now : ℚ}
    {evicted : List String × Node sigma tau pi}
    (h : n.evict (n.table.memoryUsage + 1) now = .ok evicted) : n.Addressed := by
  have hnonneg : 0 ≤ n.table.memoryUsage := by
    rw [hn.bookkeeping.memory]
    exact residentBytes_nonneg _
  rcases evict_cases hn (by omega : 0 < n.table.memoryUsage + 1) now with
    hstaged | ⟨_, raised, hraised⟩
  · rcases hstaged.evicts with ⟨victims, n', _, hevicts, henough | hempty⟩
    · have hmost := totalBytes_le_memoryUsage hevicts
      omega
    · intro k f hf
      apply Option.bind_eq_none_iff.mpr
      intro ref href
      apply hevicts.faultless ref ⟨k, f, hf, href⟩
      rintro ⟨j, g, hg, _⟩
      exact hempty j (Dict.mem_of_get? hg)
  · rw [hraised] at h
    cases h

end Node

/-!
# What evictions preserve
-/

namespace Node

variable {sigma tau pi : Type}

def Evicted.settled : Except (Raised sigma tau pi) (Evicted sigma tau pi) -> Node sigma tau pi
  | .error raised => raised.node
  | .ok e => e.node

variable [InventoryHash] [PayloadStore sigma] [LowerTier tau]

structure KeptByRemovals (holds : Node sigma tau pi -> Prop) : Prop where
  demoted : forall m k, holds m -> holds (m.demoted k)
  remove : forall m k f m', m.removeFragment k = .ok (f, m') -> holds m -> holds m'
  raised : forall m k raised, m.removeFragment k = .error raised -> holds m ->
    holds raised.node
  mergeReads : forall m, holds m -> holds m.mergeReads
  callbacks : forall m evicted reason, holds m ->
    holds (m.fireEvictionCallbacks evicted reason)

namespace KeptByRemovals

variable {holds : Node sigma tau pi -> Prop} {n n' : Node sigma tau pi}

section

variable (hkept : KeptByRemovals holds)

include hkept

theorem removeFragment (hn : holds n) (k : String) : holds (after (n.removeFragment k)) := by
  cases hremove : n.removeFragment k with
  | error raised => exact hkept.raised n k raised hremove hn
  | ok removed => exact hkept.remove n k removed.1 removed.2 hremove hn

theorem evictKey (hn : holds n) (demoting : Bool) (k : String) :
    holds (after (n.evictKey demoting k)) := by
  have hdemoted : holds (if demoting then n.demoted k else n) := by
    cases demoting with
    | false => exact hn
    | true => exact hkept.demoted n k hn
  cases hevict : n.evictKey demoting k with
  | error raised =>
    rcases evictKey_eq_error hevict with hsame | hremove
    · exact (congrArg holds hsame).mpr hn
    · exact hkept.raised _ k raised hremove hdemoted
  | ok removed => exact hkept.remove _ k _ _ (evictKey_eq_ok hevict) hdemoted

theorem evictKeys_settled (demoting skipAbsent : Bool) (targetBytes : Int)
    (keys : List String) (freed : Int) (hn : holds n) :
    holds (Evicted.settled
      (Node.evictKeys demoting skipAbsent targetBytes keys freed n)) := by
  induction keys generalizing n freed with
  | nil => exact hn
  | cons k rest ih =>
    have hnext := hkept.evictKey hn demoting k
    unfold Node.evictKeys
    split_ifs
    · exact ih freed hn
    · exact hn
    · cases hevict : n.evictKey demoting k with
      | error raised =>
        rw [hevict] at hnext
        exact hnext
      | ok removed =>
        rw [hevict] at hnext
        have htail := ih (freed + removed.1.payloadSize)
          (show holds removed.2 from hnext)
        simp only
        split
        · rename_i raised hrest
          rw [hrest] at htail
          exact htail
        · rename_i tail hrest
          rw [hrest] at htail
          exact htail

theorem evictKeys {demoting skipAbsent : Bool} {e : Evicted sigma tau pi}
    (h : Node.evictKeys demoting skipAbsent targetBytes keys freed n = .ok e)
    (hn : holds n) : holds e.node := by
  have hsettled := hkept.evictKeys_settled demoting skipAbsent targetBytes keys freed hn
  rw [h] at hsettled
  exact hsettled

theorem evictSeeds_settled (targetBytes : Int) (seeds : List String) (freed : Int)
    (hn : holds n) : holds (Evicted.settled (Node.evictSeeds targetBytes seeds freed n)) := by
  induction seeds generalizing n freed with
  | nil => exact hn
  | cons k rest ih =>
    have hneighbors := hkept.evictKeys_settled true true targetBytes
      (n.graph.evictionNeighbors k) freed hn
    unfold Node.evictSeeds
    split_ifs
    · exact hn
    · cases hfirst : Node.evictKeys true true targetBytes
        (n.graph.evictionNeighbors k) freed n with
      | error raised =>
        rw [hfirst] at hneighbors
        exact hneighbors
      | ok first =>
        rw [hfirst] at hneighbors
        have htail := ih first.freed (show holds first.node from hneighbors)
        simp only
        split
        · rename_i raised hrest
          rw [hrest] at htail
          exact htail
        · rename_i tail hrest
          rw [hrest] at htail
          exact htail

theorem sweepExpired (hn : holds n) (now : ℚ) : holds (after (n.sweepExpired now)) := by
  have hfirst := hkept.evictKeys_settled false false (n.table.memoryUsage + 1)
    (n.table.expired now) 0 hn
  unfold Node.sweepExpired Node.evictExpired
  split
  · rename_i raised hraised
    rw [hraised] at hfirst
    exact hfirst
  · rename_i first hswept
    rw [hswept] at hfirst
    exact hkept.callbacks _ _ _ hfirst

end

variable [EvictionPolicy pi]

theorem evict (hkept : KeptByRemovals holds) (hn : holds n) (targetBytes : Int) (now : ℚ) :
    holds (after (n.evict targetBytes now)) := by
  have hexpired := hkept.evictKeys_settled false false targetBytes (n.table.expired now) 0 hn
  unfold Node.evict Node.evictExpired
  split_ifs
  · exact hn
  split
  · rename_i raised hraised
    rw [hraised] at hexpired
    exact hexpired
  rename_i first hfirst
  rw [hfirst] at hexpired
  split_ifs
  · exact hkept.callbacks _ _ _ hexpired
  have hpolicy : holds (Evicted.settled (first.node.evictLru (targetBytes - first.freed) now
      (first.victims.map Prod.fst))) :=
    hkept.evictKeys_settled _ _ _ _ _ (hkept.mergeReads _ hexpired)
  split
  · rename_i raised hraised
    rw [hraised] at hpolicy
    exact hpolicy
  rename_i second hsecond
  rw [hsecond] at hpolicy
  simp only
  split_ifs
  · exact hkept.callbacks _ _ _ hpolicy
  have hgraph := hkept.evictSeeds_settled (targetBytes - (first.freed + second.freed))
    ((first.victims ++ second.victims).map Prod.fst) 0
    (show holds second.node from hpolicy)
  unfold Node.evictGraphNeighbors
  split
  · rename_i raised hraised
    rw [hraised] at hgraph
    exact hgraph
  · rename_i third hthird
    rw [hthird] at hgraph
    exact hkept.callbacks _ _ _ hgraph

end KeptByRemovals

theorem KeptByRemovals.and {holds others : Node sigma tau pi -> Prop}
    (hkept : KeptByRemovals holds) (hothers : KeptByRemovals others) :
    KeptByRemovals (fun n => holds n ∧ others n) where
  demoted m k h := ⟨hkept.demoted m k h.left, hothers.demoted m k h.right⟩
  remove m k f m' hremove h :=
    ⟨hkept.remove m k f m' hremove h.left, hothers.remove m k f m' hremove h.right⟩
  raised m k raised hremove h :=
    ⟨hkept.raised m k raised hremove h.left, hothers.raised m k raised hremove h.right⟩
  mergeReads m h := ⟨hkept.mergeReads m h.left, hothers.mergeReads m h.right⟩
  callbacks m evicted reason h :=
    ⟨hkept.callbacks m evicted reason h.left, hothers.callbacks m evicted reason h.right⟩

/-- A property of the table and the budget that a removal keeps, wherever it stops. -/
theorem keptByRemovals_of_table (holds : Nat -> FragmentTable -> Prop)
    (hpop : forall budget t k f t', t.pop k = some (f, t') -> holds budget t -> holds budget t')
    (hmerge : forall budget t, holds budget t -> holds budget t.recency) :
    KeptByRemovals (fun n : Node sigma tau pi => holds n.maxMemoryBytes n.table) where
  demoted _ _ h := h
  remove m k f m' hremove h := by
    rcases removeFragment_eq_ok hremove with ⟨table, hpopped, _, hm'⟩
    rw [hm']
    exact hpop _ _ k f table hpopped h
  raised m k raised hremove h := by
    rcases removeFragment_eq_error hremove with ⟨_, hsame⟩ | ⟨f, table, hpopped, _, hnode⟩
    · rw [hsame]
      exact h
    · rw [hnode]
      exact hpop _ _ k f table hpopped h
  mergeReads m h := hmerge _ m.table h
  callbacks _ _ _ h := h

theorem absent_keptByRemovals (k : String) :
    KeptByRemovals (fun n : Node sigma tau pi => ¬ k ∈ n.fragments) := by
  apply keptByRemovals_of_table (fun _ t => ¬ k ∈ t.fragments)
  · intro _ t j f t' hpop h hmem
    rw [FragmentTable.pop_fragments hpop, Dict.mem_erase] at hmem
    exact h hmem.right
  · exact fun _ _ h => h

theorem addressed_keptByRemovals :
    KeptByRemovals (fun n : Node sigma tau pi => n.Addressed) := by
  apply keptByRemovals_of_table (fun _ t =>
    forall k f, t.fragments.get? k = some f -> payloadFault sigma f = none)
  · intro _ t j f t' hpop h k g hg
    rw [FragmentTable.pop_fragments hpop, Dict.get?_erase] at hg
    split_ifs at hg
    exact h k g hg
  · exact fun _ _ h => h

theorem invariant_keptByRemovals :
    KeptByRemovals (fun n : Node sigma tau pi => n.Invariant) := by
  have hsame : (fun n : Node sigma tau pi => n.Invariant) = fun n =>
      (n.table.Bookkeeping ∧ n.table.AccessTracked) ∧
        n.table.memoryUsage ≤ n.maxMemoryBytes := by
    funext n
    exact propext ⟨fun h => ⟨⟨h.bookkeeping, h.tracked⟩, h.capacity⟩,
      fun h => ⟨⟨h.left.left, h.left.right⟩, h.right⟩⟩
  rw [hsame]
  apply keptByRemovals_of_table (fun budget t =>
    (t.Bookkeeping ∧ t.AccessTracked) ∧ t.memoryUsage ≤ budget)
  · intro budget t k f t' hpop h
    have hbookkeeping := FragmentTable.pop_bookkeeping h.left.left hpop
    refine ⟨⟨hbookkeeping, FragmentTable.pop_accessTracked h.left.right hpop⟩, ?_⟩
    have hbudget := h.right
    have hsize := f.payloadSize_nonneg
    rw [h.left.left.memory] at hbudget
    rw [hbookkeeping.memory, FragmentTable.pop_fragments hpop,
      residentBytes_erase (FragmentTable.pop_get? hpop)]
    omega
  · intro budget t h
    exact ⟨⟨FragmentTable.recency_bookkeeping h.left.left,
      FragmentTable.recency_accessTracked h.left.right⟩, h.right⟩

end Node

end Serving
end Membrane
