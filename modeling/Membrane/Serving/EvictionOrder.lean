import Membrane.Serving.Runs
import Membrane.Store.Recency

/-!
# The order of an eviction

An eviction takes the expired fragments first, in the order of the table, and then
live ones in the order of the policy.  It stops as soon as enough bytes are free, so
that no victim is superfluous.  It raises in the middle when it deletes a payload that
the content store cannot address.
-/

namespace Membrane
namespace Serving

open Foundation Data Store

theorem eq_of_leading {alpha : Type} {part whole : List alpha} (hnodup : whole.Nodup)
    (hleading : part <+: whole) (hall : forall a, a ∈ whole -> a ∈ part) :
    part = whole := by
  rcases hleading with ⟨left, heq⟩
  cases left with
  | nil => rw [← heq, List.append_nil]
  | cons a rest =>
    rw [← heq] at hnodup
    have hlast : a ∈ part := hall a (by rw [← heq]; simp)
    exact absurd rfl ((List.nodup_append.mp hnodup).right.right a hlast a
      List.mem_cons_self)

variable {targetBytes : Int} {victims : List (String × Fragment)}

theorem totalBytes_dropLast_lt (hpositive : 0 < targetBytes)
    (h : victims ≠ [] -> totalBytes victims.dropLast < targetBytes) :
    totalBytes victims.dropLast < targetBytes := by
  cases victims with
  | nil => exact hpositive
  | cons victim rest => exact h (List.cons_ne_nil victim rest)

theorem totalBytes_dropLast_append {first second : List (String × Fragment)}
    (hpositive : 0 < targetBytes)
    (hfirst : first ≠ [] -> totalBytes first.dropLast < targetBytes)
    (hsecond : second ≠ [] -> totalBytes second.dropLast < targetBytes - totalBytes first) :
    totalBytes (first ++ second).dropLast < targetBytes := by
  cases second with
  | nil =>
    rw [List.append_nil]
    exact totalBytes_dropLast_lt hpositive hfirst
  | cons victim rest =>
    have hshort := hsecond (List.cons_ne_nil victim rest)
    rw [List.dropLast_append_of_ne_nil (List.cons_ne_nil victim rest),
      totalBytes_append]
    omega

namespace Node

variable {sigma tau pi : Type}

/-!
# What is asked of an eviction
-/

def liveEntries (n : Node sigma tau pi) (now : ℚ) : List (String × Fragment) :=
  n.fragments.entries.filter (fun entry => !n.table.isExpired entry.1 now)

/-- The expired ones come first in the order of the table, then the live ones in the policy's. -/
def TakenInOrder [EvictionPolicy pi] (n : Node sigma tau pi) (now : ℚ)
    (keys : List String) : Prop :=
  exists expired live accessTimes, keys = expired ++ live ∧
    expired <+: n.table.expired now ∧ (live ≠ [] -> expired = n.table.expired now) ∧
    (forall entry, entry ∈ n.liveEntries now ->
      Dict.get? accessTimes entry.1 = n.table.lastAccess entry.1) ∧
    live <+: EvictionPolicy.order n.evictionPolicy (n.liveEntries now) accessTimes now

structure EvictsAsAsked [EvictionPolicy pi] (n : Node sigma tau pi) (targetBytes : Int) (now : ℚ)
    (victims : List (String × Fragment)) (n' : Node sigma tau pi) : Prop where
  once : (victims.map Prod.fst).Nodup
  resident : forall k f, (k, f) ∈ victims -> n.fragments.get? k = some f
  remaining : forall k, n'.fragments.get? k =
    if k ∈ victims.map Prod.fst then none else n.fragments.get? k
  memory : n'.table.memoryUsage = n.table.memoryUsage - totalBytes victims
  freed : min targetBytes n.table.memoryUsage ≤ totalBytes victims
  ordered : n.TakenInOrder now (victims.map Prod.fst)
  needed : totalBytes victims.dropLast < targetBytes

theorem TakenInOrder.nodup [EvictionPolicy pi] {n : Node sigma tau pi} {now : ℚ}
    {keys : List String} (h : n.TakenInOrder now keys) :
    keys.Nodup := by
  rcases h with ⟨expired, live, times, rfl, hexpired, _, _, hlive⟩
  have hperm := EvictionPolicy.order_perm n.evictionPolicy (n.liveEntries now) times now
  have hsub : ((n.liveEntries now).map Prod.fst).Sublist n.fragments.keys :=
    List.filter_sublist.map Prod.fst
  have hnodup := hperm.nodup_iff.mpr (n.fragments.keys_nodup.sublist hsub)
  apply List.nodup_append.mpr
  refine ⟨(n.fragments.keys_nodup.filter _).sublist hexpired.sublist,
    hnodup.sublist hlive.sublist, ?_⟩
  intro k hk j hj hkj
  subst hkj
  have hold : n.table.isExpired k now = true :=
    (List.mem_filter.mp (hexpired.subset hk)).right
  rcases List.mem_map.mp (hperm.subset (hlive.subset hj)) with ⟨entry, hentry, heq⟩
  have hyoung := (List.mem_filter.mp hentry).right
  rw [heq, hold] at hyoung
  cases hyoung

theorem passesGates_of_open {n : Node sigma tau pi} {f : Fragment} {caller : Caller}
    (hwrite : checkWrite f.tenantId caller = .ok ())
    (hadmission : n.admissionPolicy = none) (hquota : n.quotas.get? f.tenantId = none) :
    n.PassesGates f caller := by
  refine ⟨hwrite, ?_, ?_⟩
  · unfold refusedByAdmission
    rw [hadmission]
    rfl
  · unfold chargeQuota
    rw [hquota]

/-!
# What the first stage leaves
-/

/-- What is left of a table: its entries in their order, with their access times. -/
structure Thins (t t' : FragmentTable) : Prop where
  entries : t'.fragments.entries =
    t.fragments.entries.filter (fun entry => decide (entry.1 ∈ t'.fragments))
  times : forall k, k ∈ t'.fragments -> t'.lastAccess k = t.lastAccess k

theorem Thins.refl (t : FragmentTable) : Thins t t where
  entries := by
    symm
    apply List.filter_eq_self.mpr
    intro entry hentry
    exact decide_eq_true (List.mem_map_of_mem hentry)
  times _ _ := rfl

variable [InventoryHash]

theorem Thins.pop {t t₁ t₂ : FragmentTable} (h : Thins t t₁) {k : String} {f : Fragment}
    (hpop : t₁.pop k = some (f, t₂)) : Thins t t₂ := by
  have hfragments := FragmentTable.pop_fragments hpop
  have hmem : forall j, j ∈ t₂.fragments <-> j ≠ k ∧ j ∈ t₁.fragments := by
    intro j
    rw [hfragments, Dict.mem_erase]
  constructor
  · have herased : t₂.fragments.entries =
        t₁.fragments.entries.filter (fun entry => decide (entry.1 ≠ k)) := by
      rw [hfragments]
      rfl
    rw [herased, h.entries, List.filter_filter]
    apply List.filter_congr
    intro entry _hentry
    rw [← Bool.decide_and]
    exact decide_eq_decide.mpr (hmem entry.1).symm
  · intro j hj
    rcases (hmem j).mp hj with ⟨hne, hold⟩
    rw [FragmentTable.lastAccess_pop hpop hne]
    exact h.times j hold

variable [PayloadStore sigma]

theorem evictsAsAsked_of_evicts [EvictionPolicy pi] {n n' : Node sigma tau pi} {now : ℚ}
    (hevicts : Evicts n victims n')
    (henough : targetBytes ≤ totalBytes victims ∨ forall k, ¬ k ∈ n'.fragments)
    (hordered : n.TakenInOrder now (victims.map Prod.fst))
    (hneeded : totalBytes victims.dropLast < targetBytes) :
    n.EvictsAsAsked targetBytes now victims n' where
  once := hordered.nodup
  resident := hevicts.resident
  remaining := hevicts.remaining
  memory := hevicts.memory
  freed := by
    rcases henough with henough | hempty
    · exact (min_le_left _ _).trans henough
    · have hnone := hevicts.consistent.memoryUsage_of_empty hempty
      rw [hevicts.memory] at hnone
      exact (min_le_right _ _).trans (by omega)
  ordered := hordered
  needed := hneeded

variable [LowerTier tau]

theorem thins_keptByRemovals (t : FragmentTable) :
    KeptByRemovals (fun n : Node sigma tau pi => Thins t n.table) := by
  apply keptByRemovals_of_table (fun _ t' => Thins t t')
  · exact fun _ _ _ _ _ hpop h => h.pop hpop
  · intro _ t' h
    exact ⟨h.entries, fun k hk => (t'.lastAccess_recency k).trans (h.times k hk)⟩

/-!
# One stage
-/

theorem evictKeys_leading {demoting : Bool} {freed : Int} {keys : List String}
    {n : Node sigma tau pi} {e : Evicted sigma tau pi}
    (h : evictKeys demoting false targetBytes keys freed n = .ok e) :
    e.victims.map Prod.fst <+: keys ∧
      (e.victims ≠ [] -> freed + totalBytes e.victims.dropLast < targetBytes) := by
  induction keys generalizing n freed e with
  | nil =>
    cases h
    exact ⟨⟨[], rfl⟩, fun hsome => absurd rfl hsome⟩
  | cons k rest ih =>
    unfold evictKeys at h
    simp only [Bool.false_eq_true, false_and, if_false] at h
    by_cases henough : targetBytes ≤ freed
    · rw [if_pos henough] at h
      cases h
      exact ⟨⟨k :: rest, rfl⟩, fun hsome => absurd rfl hsome⟩
    rw [if_neg henough] at h
    cases hremove : n.evictKey demoting k with
    | error error =>
      rw [hremove] at h
      cases h
    | ok removed =>
      simp only [hremove] at h
      split at h
      · cases h
      · rename_i tail htail
        cases h
        rcases ih htail with ⟨⟨left, hleft⟩, hneeded⟩
        constructor
        · exact ⟨left, congrArg (fun keys => k :: keys) hleft⟩
        · intro _
          cases hvictims : tail.victims with
          | nil =>
            show freed + 0 < targetBytes
            omega
          | cons next others =>
            have hshort := hneeded (by rw [hvictims]; exact List.cons_ne_nil _ _)
            rw [hvictims] at hshort
            rw [List.dropLast_cons_of_ne_nil (List.cons_ne_nil _ _)]
            have htotal : totalBytes ((k, removed.1) ::
                (next :: others).dropLast) = removed.1.payloadSize +
                  totalBytes (next :: others).dropLast := rfl
            omega

variable [EvictionPolicy pi] {n m : Node sigma tau pi} {now : ℚ}

/-!
# The three stages together
-/

theorem evictLru_leading (hthins : Thins n.table m.table)
    (hpolicy : m.evictionPolicy = n.evictionPolicy)
    (hlive : forall k, k ∈ m.fragments <-> k ∈ n.fragments ∧ n.table.isExpired k now = false)
    {already : List String} (halready : forall k, k ∈ already -> ¬ k ∈ m.fragments)
    {e : Evicted sigma tau pi} (h : m.evictLru targetBytes now already = .ok e) :
    e.victims.map Prod.fst <+: EvictionPolicy.order n.evictionPolicy (n.liveEntries now)
        m.table.recency.accessTimes now ∧
      (e.victims ≠ [] -> totalBytes e.victims.dropLast < targetBytes) := by
  have hcandidates : m.fragments.entries.filter (fun entry => entry.1 ∉ already) =
      n.liveEntries now := by
    have hall : m.fragments.entries.filter (fun entry => entry.1 ∉ already) =
        m.fragments.entries := by
      apply List.filter_eq_self.mpr
      intro entry hentry
      exact decide_eq_true (fun hmem => halready entry.1 hmem (List.mem_map_of_mem hentry))
    rw [hall]
    refine hthins.entries.trans (List.filter_congr ?_)
    intro entry hentry
    have hresident : entry.1 ∈ n.fragments := List.mem_map_of_mem hentry
    cases hexpired : n.table.isExpired entry.1 now with
    | true =>
      apply decide_eq_false
      intro hmem
      rw [((hlive entry.1).mp hmem).right] at hexpired
      cases hexpired
    | false => exact decide_eq_true ((hlive entry.1).mpr ⟨hresident, hexpired⟩)
  rcases evictKeys_leading h with ⟨hleading, hneeded⟩
  rw [hcandidates, hpolicy] at hleading
  refine ⟨hleading, fun hsome => ?_⟩
  have hshort := hneeded hsome
  omega

theorem evict_asAsked (haddressed : n.Addressed) (hn : n.Consistent)
    (hpositive : 0 < targetBytes) (now : ℚ) :
    exists victims n', n.evict targetBytes now = .ok (victims.map Prod.fst, n') ∧
      n.EvictsAsAsked targetBytes now victims n' := by
  rcases evict_stages haddressed hn hpositive now with ⟨first, hfirst, hstage, hcases⟩
  have hfreed : first.freed = totalBytes first.victims := by
    rw [hstage.freed_eq, Int.zero_add]
  rcases evictKeys_leading hfirst with ⟨hleading, hneeded⟩
  simp only [Int.zero_add] at hneeded
  rcases hcases with ⟨henough, hevict⟩ | ⟨hshort, second, hsecond, hevicts, henough, hevict⟩
  · have hdone := finishEviction_evicts hstage.evicts EvictionReason.capacity
    refine ⟨first.victims, _, hevict, ?_⟩
    apply evictsAsAsked_of_evicts hdone (Or.inl (hfreed ▸ henough))
    · exact ⟨_, [], n.table.recency.accessTimes, (List.append_nil _).symm, hleading,
        fun h => absurd rfl h, fun _ _ => rfl, ⟨_, rfl⟩⟩
    · exact totalBytes_dropLast_lt hpositive hneeded
  have hall : first.victims.map Prod.fst = n.table.expired now := by
    apply eq_of_leading (n.fragments.keys_nodup.filter _) hleading
    rcases hstage.enough with hle | hall
    · exact absurd hle (not_le.mpr hshort)
    · exact hall
  have hgone : forall k, k ∈ first.victims.map Prod.fst -> ¬ k ∈ first.node.fragments :=
    fun k hk hmem => ((hstage.evicts.mem_remaining_iff k).mp hmem).right hk
  have hthins : Thins n.table first.node.table :=
    (thins_keptByRemovals n.table).evictKeys hfirst (Thins.refl n.table)
  have hlive : forall k, k ∈ first.node.fragments <->
      k ∈ n.fragments ∧ n.table.isExpired k now = false := by
    intro k
    rw [hstage.evicts.mem_remaining_iff, hall]
    unfold FragmentTable.expired
    rw [List.mem_filter, not_and, Bool.not_eq_true]
    exact ⟨fun h => ⟨h.left, h.right h.left⟩, fun h => ⟨h.left, fun _ => h.right⟩⟩
  rcases evictLru_leading hthins hstage.evicts.frame.evictionPolicy hlive hgone hsecond with
    ⟨hpolicy, hpolicyNeeded⟩
  rw [hfreed] at hpolicyNeeded
  have hordered : n.TakenInOrder now ((first.victims ++ second.victims).map Prod.fst) := by
    refine ⟨first.victims.map Prod.fst, second.victims.map Prod.fst,
      first.node.table.recency.accessTimes, List.map_append, hleading, fun _ => hall, ?_,
      hpolicy⟩
    intro entry hentry
    rcases List.mem_filter.mp hentry with ⟨hmem, hyoung⟩
    exact hthins.times entry.1 ((hlive entry.1).mpr
      ⟨List.mem_map_of_mem hmem, by simpa using hyoung⟩)
  exact ⟨first.victims ++ second.victims, _, hevict,
    evictsAsAsked_of_evicts
      (finishEviction_evicts (hstage.evicts.trans hevicts) EvictionReason.capacity) henough
      hordered (totalBytes_dropLast_append hpositive hneeded hpolicyNeeded)⟩

/-!
# Making room for a fragment
-/

/-- An eviction does what it is asked for, and a store of the fragment succeeds. -/
structure MakesRoom (n : Node sigma tau pi) (f : Fragment) : Prop where
  evicts : forall targetBytes now, 0 < targetBytes ->
    exists victims n', n.evict targetBytes now = .ok (victims.map Prod.fst, n') ∧
      n.EvictsAsAsked targetBytes now victims n'
  stores : forall isPrimary caller now evictTime, checkWrite f.tenantId caller = .ok () ->
    (n.store f isPrimary caller now evictTime).1 = .ok true ∧
      (n.store f isPrimary caller now evictTime).2.fragments.get? f.key = some f

section

variable {f : Fragment} (hn : n.Invariant) (hadmission : n.admissionPolicy = none)
  (hquota : n.quotas.get? f.tenantId = none) (hnew : ¬ f.key ∈ n.fragments)
  (hsize : f.payloadSize ≤ n.maxMemoryBytes)

include hn hadmission hquota hnew hsize

theorem exists_store_eq_insertFragment (haddressed : n.Addressed) {caller : Caller}
    (hwrite : checkWrite f.tenantId caller = .ok ()) (isPrimary : Bool) (now evictTime : ℚ) :
    exists room : Node sigma tau pi,
      n.store f isPrimary caller now evictTime = room.insertFragment f isPrimary now := by
  rw [store_of_passesGates (passesGates_of_open hwrite hadmission hquota),
    if_neg (not_lt.mpr hsize)]
  have hcharged : (n.charged f).Addressed :=
    fun k g hg => haddressed k g (charged_fragments n f ▸ hg)
  rcases storeLocked_of_not_mem hcharged (charged_invariant hn f)
    (fun hmem => hnew (charged_fragments n f ▸ hmem))
    (by rw [charged_maxMemoryBytes]; exact hsize) with ⟨_, room, _, _, _, hstored⟩
  exact ⟨room, hstored⟩

end

end Node

section Sample

attribute [local instance] InventoryHash.constant

def crowdedNode : Node InProcessBytes Empty WeightedLRU :=
  ((Node.create (Config.default "node" 100)).store firstCopy true Caller.internal 0 0).2

end Sample

end Serving
end Membrane
