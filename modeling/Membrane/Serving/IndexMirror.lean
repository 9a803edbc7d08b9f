import Membrane.Index.Queries
import Membrane.Serving.Runs

/-!
# The index and the resident fragments

A node registers a fragment in its index when it stores it and never takes it out
again.  This module states exactly which calls keep the index equal to the resident
fragments, with no hash answered twice.
-/

namespace Membrane
namespace Serving

open Foundation Data Store Index

namespace Node

variable {sigma tau pi : Type}

def ResidentHash (n : Node sigma tau pi) (hash : String) : Prop :=
  exists k f, n.fragments.get? k = some f ∧ f.payloadHash = hash

def IndexMirrors (n : Node sigma tau pi) : Prop :=
  n.indexSystem.Mirrors n.ResidentHash

structure Registered (n : Node sigma tau pi) : Prop where
  wellBuilt : n.indexSystem.WellBuilt
  indexed : forall k f, n.fragments.get? k = some f -> f ∈ n.indexSystem.semantic.fragments

section Fresh

variable {config : Config sigma tau pi}

theorem create_registered (h : config.indexSystem = IndexSystem.create) :
    (create config).Registered where
  wellBuilt := by
    show config.indexSystem.WellBuilt
    rw [h]
    exact IndexSystem.create_wellBuilt
  indexed k f hf := by cases hf

theorem create_indexMirrors (h : config.indexSystem = IndexSystem.create) :
    (create config).IndexMirrors := by
  apply ((create_registered h).wellBuilt.mirrors_iff _).mpr
  show (forall hash, hash ∈ config.indexSystem.hashes <-> _) ∧
    Distinct config.indexSystem.semantic.fragments ∧
      forall f, f ∈ config.indexSystem.semantic.fragments -> _
  rw [h]
  refine ⟨fun hash => ⟨fun hhash => ?_, fun hres => ?_⟩, List.nodup_nil, fun f hf => ?_⟩
  · cases hhash
  · rcases hres with ⟨k, f, hf, _⟩
    cases hf
  · cases hf

end Fresh

section Mirroring

variable {n n' : Node sigma tau pi} {f : Fragment}

theorem IndexMirrors.hash_iff (h : n.IndexMirrors) (hash : String) :
    hash ∈ n.indexSystem.hashes <-> n.ResidentHash hash :=
  h.semantic hash

theorem Registered.congr (h : n.Registered) (hindex : n'.indexSystem = n.indexSystem)
    (hsub : forall k f, n'.fragments.get? k = some f -> n.fragments.get? k = some f) :
    n'.Registered where
  wellBuilt := hindex ▸ h.wellBuilt
  indexed k f hf := by
    rw [hindex]
    exact h.indexed k f (hsub k f hf)

@[simp] theorem charged_indexSystem (n : Node sigma tau pi) (f : Fragment) :
    (n.charged f).indexSystem = n.indexSystem := by rw [n.charged_eq f]

theorem Registered.charged (h : n.Registered) (f : Fragment) : (n.charged f).Registered :=
  h.congr (n.charged_indexSystem f) (fun k g hg => by rwa [charged_fragments] at hg)

theorem residentHash_congr (h : forall k, n'.fragments.get? k = n.fragments.get? k)
    (hash : String) : n'.ResidentHash hash <-> n.ResidentHash hash := by
  unfold ResidentHash
  simp only [h]

theorem IndexMirrors.congr (h : n.IndexMirrors) (hindex : n'.indexSystem = n.indexSystem)
    (hsame : forall k, n'.fragments.get? k = n.fragments.get? k) : n'.IndexMirrors := by
  have hresident : n'.ResidentHash = n.ResidentHash :=
    funext fun hash => propext (residentHash_congr hsame hash)
  unfold IndexMirrors
  rw [hindex, hresident]
  exact h

variable [InventoryHash]

theorem Registered.inserted (h : n.Registered) (isPrimary : Bool) (now : ℚ) :
    (n.inserted f isPrimary now).Registered where
  wellBuilt := h.wellBuilt.insert f _
  indexed k g hg := by
    rw [get?_inserted] at hg
    split_ifs at hg
    · cases hg
      exact List.mem_append_right _ List.mem_cons_self
    · exact List.mem_append_left _ (h.indexed k g hg)

theorem IndexMirrors.key_eq (h : n.IndexMirrors) (hn : n.Consistent) (hreg : n.Registered)
    {k j : String} {f g : Fragment} (hf : n.fragments.get? k = some f)
    (hg : n.fragments.get? j = some g) (hhash : f.payloadHash = g.payloadHash) : k = j := by
  have hdistinct := ((hreg.wellBuilt.mirrors_iff _).mp h).right.left
  have hsame := hdistinct.eq (hreg.indexed k f hf) (hreg.indexed j g hg) hhash
  rw [← hn.bookkeeping.keyed k f hf, ← hn.bookkeeping.keyed j g hg, hsame]

/-!
# Removals
-/

variable [ContentStore sigma]

variable {victims : List (String × Fragment)} {holds : Node sigma tau pi -> Prop}

section

variable (h : Evicts n victims n') (hn : n.Consistent) (hreg : n.Registered)
  (hm : n.IndexMirrors)

include h hn hreg hm

theorem Evicts.not_residentHash {k : String} {g : Fragment}
    (hvictim : (k, g) ∈ victims) : ¬ n'.ResidentHash g.payloadHash := by
  rintro ⟨j, f, hf, hhash⟩
  have hsame := hm.key_eq hn hreg (h.get?_of_remaining hf) (h.resident k g hvictim) hhash
  rw [h.remaining, hsame, if_pos (List.mem_map_of_mem hvictim)] at hf
  cases hf

theorem Evicts.indexMirrors_iff : n'.IndexMirrors <-> victims = [] := by
  constructor
  · intro hm'
    rw [List.eq_nil_iff_forall_not_mem]
    rintro ⟨k, g⟩ hvictim
    have hindexed := (hm.hash_iff g.payloadHash).mpr ⟨k, g, h.resident k g hvictim, rfl⟩
    rw [← h.frame.indexSystem] at hindexed
    exact h.not_residentHash hn hreg hm hvictim ((hm'.hash_iff _).mp hindexed)
  · intro hnone
    apply hm.congr h.frame.indexSystem
    intro k
    rw [h.remaining k, hnone]
    rfl

/-!
# Insertions
-/

theorem Evicts.inserted_indexMirrors_iff (hnew : ¬ f.key ∈ n'.fragments)
    (isPrimary : Bool) (now : ℚ) :
    (n'.inserted f isPrimary now).IndexMirrors <->
      victims = [] ∧ ¬ n.ResidentHash f.payloadHash ∧
        f.identity.tokenSpan.1 < f.identity.tokenSpan.2 := by
  have hbefore := (hreg.wellBuilt.mirrors_iff _).mp hm
  have hreg' : n'.Registered := hreg.congr h.frame.indexSystem
    (fun k g hg => h.get?_of_remaining hg)
  have hwell : (n'.inserted f isPrimary now).indexSystem.WellBuilt :=
    (hreg'.inserted isPrimary now).wellBuilt
  have hfragments : (n'.inserted f isPrimary now).indexSystem.semantic.fragments =
      n.indexSystem.semantic.fragments ++ [f] := by
    rw [← h.frame.indexSystem]
    rfl
  have hhashes : (n'.inserted f isPrimary now).indexSystem.hashes =
      n.indexSystem.hashes ++ [f.payloadHash] := by
    rw [← h.frame.indexSystem]
    exact IndexSystem.hashes_insert _ f _
  have hresident : forall hash, (n'.inserted f isPrimary now).ResidentHash hash <->
      n'.ResidentHash hash ∨ f.payloadHash = hash := by
    intro hash
    constructor
    · rintro ⟨k, g, hg, hhash⟩
      rw [get?_inserted] at hg
      split_ifs at hg
      · cases hg
        exact Or.inr hhash
      · exact Or.inl ⟨k, g, hg, hhash⟩
    · rintro (⟨k, g, hg, hhash⟩ | hhash)
      · refine ⟨k, g, ?_, hhash⟩
        rw [get?_inserted, if_neg]
        · exact hg
        · rintro rfl
          exact hnew (Dict.mem_of_get? hg)
      · exact ⟨f.key, f, by rw [get?_inserted, if_pos rfl], hhash⟩
  unfold IndexMirrors
  rw [hwell.mirrors_iff, hhashes, hfragments]
  constructor
  · rintro ⟨hsame, hdistinct, hlong⟩
    have hfresh : ¬ f.payloadHash ∈ n.indexSystem.hashes := by
      intro hold
      rw [Distinct, List.map_append] at hdistinct
      exact List.disjoint_of_nodup_append hdistinct hold List.mem_cons_self
    refine ⟨?_, fun hres => hfresh ((hm.hash_iff _).mpr hres),
      hlong f (List.mem_append_right _ List.mem_cons_self)⟩
    rw [List.eq_nil_iff_forall_not_mem]
    rintro ⟨k, g⟩ hvictim
    have hindexed := (hm.hash_iff g.payloadHash).mpr ⟨k, g, h.resident k g hvictim, rfl⟩
    rcases (hresident g.payloadHash).mp
      ((hsame g.payloadHash).mp (List.mem_append_left _ hindexed)) with hstill | heq
    · exact h.not_residentHash hn hreg hm hvictim hstill
    · rw [← heq] at hindexed
      exact hfresh hindexed
  · rintro ⟨hnone, hfresh, hspan⟩
    have hkept : forall hash, n'.ResidentHash hash <-> n.ResidentHash hash := by
      apply residentHash_congr
      intro k
      rw [h.remaining k, hnone]
      rfl
    refine ⟨fun hash => ?_, ?_, fun g hg => ?_⟩
    · rw [hresident, hkept, List.mem_append, List.mem_singleton, hm.hash_iff]
      exact or_congr_right eq_comm
    · rw [Distinct, List.map_append]
      apply List.Nodup.append hbefore.right.left (List.nodup_singleton _)
      intro hash hold hlast
      rw [List.mem_singleton.mp hlast] at hold
      exact hfresh ((hm.hash_iff _).mp hold)
    · rcases List.mem_append.mp hg with hg | hg
      · exact hbefore.right.right g hg
      · rw [List.mem_singleton.mp hg]
        exact hspan

end

/-!
# What a call removes
-/

theorem after_removeFragment_iff (hn : n.Consistent)
    (hremoves : forall victims n', Evicts n victims n' -> (holds n' <-> victims = []))
    (k : String) : holds (Node.after (n.removeFragment k)) <-> ¬ k ∈ n.fragments := by
  by_cases hk : k ∈ n.fragments
  · rcases removeFragment_of_mem (Node.addressed _) hk with ⟨f, n', hremove⟩
    rw [hremove]
    show holds n' <-> _
    rw [hremoves _ _ (removeFragment_evicts hn hremove)]
    exact ⟨fun h => absurd h (List.cons_ne_nil _ _), fun h => absurd hk h⟩
  · rw [removeFragment_of_not_mem hk]
    exact ⟨fun _ => hk, fun _ => (hremoves [] n (Evicts.refl hn)).mpr rfl⟩

variable [LowerTier tau]

theorem sweepExpired_removes (hn : n.Consistent) (now : ℚ) :
    exists victims n', n.sweepExpired now = .ok (victims.map Prod.fst, n') ∧
      Evicts n victims n' ∧ (victims = [] <-> n.table.expired now = []) := by
  rcases evictExpired_stage (Node.addressed _) hn (n.table.memoryUsage + 1) now with
    ⟨first, hfirst, hstage⟩
  unfold sweepExpired
  simp only [hfirst]
  refine ⟨first.victims, _, rfl, finishEviction_evicts hstage.evicts EvictionReason.expired,
    ?_, ?_⟩
  · intro hnone
    have hfreed := hstage.freed_eq
    have hbytes := totalBytes_le_memoryUsage hstage.evicts
    rcases hstage.enough with henough | hall
    · omega
    · rw [List.eq_nil_iff_forall_not_mem]
      intro k hk
      have hk := hall k hk
      rw [hnone] at hk
      cases hk
  · intro hnone
    rw [List.eq_nil_iff_forall_not_mem]
    rintro ⟨k, g⟩ hvictim
    have hk := hstage.among k (List.mem_map_of_mem hvictim)
    rw [hnone] at hk
    cases hk

theorem after_sweepExpired_iff (hn : n.Consistent)
    (hremoves : forall victims n', Evicts n victims n' -> (holds n' <-> victims = [])) (now : ℚ)
    :
    holds (Node.after (n.sweepExpired now)) <-> n.table.expired now = [] := by
  rcases sweepExpired_removes hn now with ⟨victims, n', hsweep, hevicts, hnone⟩
  rw [hsweep]
  exact (hremoves victims n' hevicts).trans hnone

variable [EvictionPolicy pi]

theorem evict_removes (hn : n.Consistent) (targetBytes : Int) (now : ℚ) :
    exists victims n', n.evict targetBytes now = .ok (victims.map Prod.fst, n') ∧
      Evicts n victims n' ∧
      (victims = [] <-> targetBytes ≤ 0 ∨ forall k, ¬ k ∈ n.fragments) := by
  by_cases htarget : targetBytes ≤ 0
  · refine ⟨[], n, ?_, Evicts.refl hn, fun _ => Or.inl htarget, fun _ => rfl⟩
    unfold evict
    rw [if_pos htarget]
    rfl
  · rcases evict_evicts (Node.addressed _) hn targetBytes now with
      ⟨victims, n', hevict, hevicts, hfreed⟩
    refine ⟨victims, n', hevict, hevicts, ?_, ?_⟩
    · intro hnone
      rcases hfreed with hfreed | hempty
      · rw [hnone] at hfreed
        exact absurd hfreed (by simpa [totalBytes] using htarget)
      · right
        intro k hk
        apply hempty k
        rw [hevicts.mem_remaining_iff, hnone]
        exact ⟨hk, List.not_mem_nil⟩
    · rintro (hle | hempty)
      · exact absurd hle htarget
      · rw [List.eq_nil_iff_forall_not_mem]
        rintro ⟨k, g⟩ hvictim
        exact hempty k (Dict.mem_of_get? (hevicts.resident k g hvictim))

theorem after_evict_iff (hn : n.Consistent)
    (hremoves : forall victims n', Evicts n victims n' -> (holds n' <-> victims = []))
    (targetBytes : Int) (now : ℚ) :
    holds (Node.after (n.evict targetBytes now)) <->
      targetBytes ≤ 0 ∨ forall k, ¬ k ∈ n.fragments := by
  rcases evict_removes hn targetBytes now with ⟨victims, n', hevict, hevicts, hnone⟩
  rw [hevict]
  exact (hremoves victims n' hevicts).trans hnone

theorem plannedVictims_eq_nil_iff (hn : n.Invariant)
    (hsize : f.payloadSize ≤ n.maxMemoryBytes) (evictTime : ℚ) :
    n.plannedVictims f evictTime = [] <->
      n.table.memoryUsage + f.payloadSize ≤ n.maxMemoryBytes := by
  have hcapacity := hn.capacity
  unfold plannedVictims
  split_ifs with hfull
  · rcases evict_removes hn.toConsistent f.payloadSize evictTime with
      ⟨victims, n', hevict, hevicts, hnone⟩
    simp only [hevict, List.map_eq_nil_iff, hnone]
    refine ⟨fun h => ?_, fun h => by omega⟩
    rcases h with h | hempty
    · omega
    · rw [hn.memoryUsage_of_empty hempty] at hfull
      omega
  · exact ⟨fun _ => by omega, fun _ => rfl⟩

theorem victims_eq_nil_iff (hn : n.Invariant) {victims : List (String × Fragment)}
    (hsize : f.payloadSize ≤ n.maxMemoryBytes)
    (hplan : victims.map Prod.fst = (n.charged f).plannedVictims f evictTime) :
    victims = [] <-> n.table.memoryUsage + f.payloadSize ≤ n.maxMemoryBytes := by
  rw [← List.map_eq_nil_iff, hplan, plannedVictims_eq_nil_iff (charged_invariant hn f)
    (by rw [charged_maxMemoryBytes]; exact hsize), charged_table, charged_maxMemoryBytes]

/-!
# Runs
-/

/-- The calls that keep an exact index exact.  A store that inserts a fragment must
find room for it, its hash must be new and it must cover more than one token; no
other call may remove a fragment. -/
def KeepsIndex (n : Node sigma tau pi) : Mutation -> Prop
  | .store f _ caller _ _ =>
    n.Accepts f caller -> ¬ f.key ∈ n.fragments ->
      n.table.memoryUsage + f.payloadSize ≤ n.maxMemoryBytes ∧
        ¬ n.ResidentHash f.payloadHash ∧
        f.identity.tokenSpan.1 < f.identity.tokenSpan.2
  | .removeFragment k => ¬ k ∈ n.fragments
  | .evict targetBytes _ => targetBytes ≤ 0 ∨ forall k, ¬ k ∈ n.fragments
  | .sweepExpired now => n.table.expired now = []

section

variable (hn : n.Invariant) (hreg : n.Registered)

include hn hreg

theorem store_registered (f : Fragment)
    (isPrimary : Bool) (caller : Caller) (now evictTime : ℚ) :
    (n.store f isPrimary caller now evictTime).2.Registered := by
  have hcharged := hreg.charged f
  exact store_preserves hn Registered hreg hcharged (hcharged.congr rfl (fun _ _ hg => hg))
    (fun _ _ hevicts => (hcharged.congr hevicts.frame.indexSystem
      (fun _ _ hg => hevicts.get?_of_remaining hg)).inserted isPrimary now)

theorem mutate_registered (m : Mutation) :
    (n.mutate m).Registered := by
  rcases mutate_cases hn.toConsistent m with ⟨f, isPrimary, caller, now, evictTime, rfl⟩ |
    ⟨_, hevicts⟩
  · exact store_registered hn hreg f isPrimary caller now evictTime
  · exact hreg.congr hevicts.frame.indexSystem (fun k g hg => hevicts.get?_of_remaining hg)

theorem store_indexMirrors_iff (hm : n.IndexMirrors) (f : Fragment) (isPrimary : Bool)
    (caller : Caller) (now evictTime : ℚ) :
    (n.store f isPrimary caller now evictTime).2.IndexMirrors <->
      n.KeepsIndex (.store f isPrimary caller now evictTime) := by
  have hcharged : (n.charged f).IndexMirrors :=
    hm.congr (n.charged_indexSystem f) (fun k => by rw [charged_fragments])
  unfold KeepsIndex
  rcases store_cases hn f isPrimary caller now evictTime with
    ⟨hgates, _, hsame⟩ | ⟨_, hlarge, hstore⟩ | ⟨_, _, hk, hstore⟩ |
      ⟨hgates, hsize, hk, victims, room, hplan, hevicts, hnew, _, hstore⟩
  · rw [hsame]
    exact ⟨fun _ haccepts => absurd haccepts.left hgates, fun _ => hm⟩
  · rw [hstore]
    exact ⟨fun _ haccepts => absurd haccepts.right (not_le.mpr hlarge), fun _ => hcharged⟩
  · rw [hstore]
    exact ⟨fun _ _ hnew => absurd hk hnew, fun _ => hcharged.congr rfl (fun _ => rfl)⟩
  · rw [hstore]
    have hhash : (n.charged f).ResidentHash f.payloadHash <->
        n.ResidentHash f.payloadHash :=
      residentHash_congr (fun k => by rw [charged_fragments]) f.payloadHash
    rw [hevicts.inserted_indexMirrors_iff (charged_invariant hn f).toConsistent
      (hreg.charged f) hcharged hnew, victims_eq_nil_iff hn hsize hplan, hhash]
    exact ⟨fun h _ _ => h, fun h => h ⟨hgates, hsize⟩ hk⟩

theorem mutate_indexMirrors_iff (hm : n.IndexMirrors) (m : Mutation) :
    (n.mutate m).IndexMirrors <-> n.KeepsIndex m := by
  have hremoves : forall victims n', Evicts n victims n' ->
      (n'.IndexMirrors <-> victims = []) :=
    fun _ _ h => h.indexMirrors_iff hn.toConsistent hreg hm
  cases m with
  | store f isPrimary caller now evictTime =>
    exact store_indexMirrors_iff hn hreg hm f isPrimary caller now evictTime
  | removeFragment k => exact after_removeFragment_iff hn.toConsistent hremoves k
  | evict targetBytes now => exact after_evict_iff hn.toConsistent hremoves targetBytes now
  | sweepExpired now => exact after_sweepExpired_iff hn.toConsistent hremoves now

end

end Mirroring

/-!
# A removed fragment
-/

section RemovedFragment

attribute [local instance] InventoryHash.constant

def indexedConfig : Config InProcessBytes Empty WeightedLRU :=
  Config.default "n0" 100

def windowStore : Mutation :=
  .store acmeWindow true Caller.internal 1 1

end RemovedFragment

end Node

end Serving
end Membrane
