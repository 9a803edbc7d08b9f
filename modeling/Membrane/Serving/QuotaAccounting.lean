import Membrane.Serving.Runs

/-!
# Quota accounting

A quota is meant to count the bytes and the resident fragments of its tenant.
A store charges the quota before it knows whether it will insert a fragment, and
no removal releases anything.  This module states exactly which calls keep the
quotas in step with the resident fragments.
-/

namespace Membrane
namespace Serving

open Foundation Data Store

def tenantFragments (fragments : Dict String Fragment) (tenant : String) :
    List (String × Fragment) :=
  fragments.entries.filter (fun entry => entry.2.tenantId = tenant)

def Accurate (quotas : Dict String TenantQuota) (fragments : Dict String Fragment) :
    Prop :=
  forall tenant quota, quotas.get? tenant = some quota ->
    quota.usedBytes = totalBytes (tenantFragments fragments tenant) ∧
      quota.usedEntries = (tenantFragments fragments tenant).length

variable {fragments : Dict String Fragment} {f : Fragment} {victims : List (String × Fragment)}
  {quotas : Dict String TenantQuota}

theorem mem_tenantFragments {k : String} (h : fragments.get? k = some f) :
    (k, f) ∈ tenantFragments fragments f.tenantId :=
  List.mem_filter.mpr ⟨(fragments.get?_eq_some_iff k f).mp h, decide_eq_true rfl⟩

theorem tenantFragments_set {k : String} (hk : ¬ k ∈ fragments) (f : Fragment) (tenant : String)
    :
    tenantFragments (fragments.set k f) tenant =
      tenantFragments fragments tenant ++
        if f.tenantId = tenant then [(k, f)] else [] := by
  unfold tenantFragments
  rw [fragments.entries_set_of_not_mem f hk, List.filter_append]
  congr 1
  by_cases htenant : f.tenantId = tenant <;> simp [htenant]

theorem Node.Evicts.entries_perm {sigma tau pi : Type} [InventoryHash] [ContentStore sigma]
    {n n' : Node sigma tau pi} (h : Node.Evicts n victims n') :
    n'.fragments.entries.Perm
      (n.fragments.entries.filter (fun entry => entry.1 ∉ victims.map Prod.fst)) := by
  apply Dict.entries_perm_filter (fun k => decide (k ∉ victims.map Prod.fst))
  intro k
  rw [h.remaining k]
  by_cases hk : k ∈ victims.map Prod.fst <;> simp [hk]

theorem tenantFragments_perm {sigma tau pi : Type} [InventoryHash] [ContentStore sigma]
    {n n' : Node sigma tau pi} (h : Node.Evicts n victims n') (tenant : String) :
    (tenantFragments n'.fragments tenant).Perm
      ((tenantFragments n.fragments tenant).filter
        (fun entry => entry.1 ∉ victims.map Prod.fst)) := by
  unfold tenantFragments
  rw [List.filter_comm]
  exact h.entries_perm.filter _

/-!
# Charging
-/

def chargedQuotas (quotas : Dict String TenantQuota) (f : Fragment) :
    Dict String TenantQuota :=
  match quotas.get? f.tenantId with
  | none => quotas
  | some quota => quotas.set f.tenantId (quota.charge f.payloadSize)

theorem get?_chargedQuotas (quotas : Dict String TenantQuota) (f : Fragment) (tenant : String) :
    (chargedQuotas quotas f).get? tenant =
      if tenant = f.tenantId then
        (quotas.get? tenant).map (fun quota => quota.charge f.payloadSize)
      else quotas.get? tenant := by
  unfold chargedQuotas
  cases hquota : quotas.get? f.tenantId with
  | none =>
    by_cases htenant : tenant = f.tenantId
    · simp [htenant, hquota]
    · simp [htenant]
  | some quota =>
    rw [Dict.get?_set]
    by_cases htenant : tenant = f.tenantId
    · simp [htenant, hquota]
    · simp [htenant]

theorem accurate_charged_iff (h : Accurate quotas fragments) (f : Fragment) :
    Accurate (chargedQuotas quotas f) fragments <-> quotas.get? f.tenantId = none := by
  constructor
  · intro hcharged
    cases hquota : quotas.get? f.tenantId with
    | none => rfl
    | some quota =>
      have hbefore := (h f.tenantId quota hquota).right
      have hafter := hcharged f.tenantId (quota.charge f.payloadSize)
        (by rw [get?_chargedQuotas, if_pos rfl, hquota]; rfl)
      have hentries : quota.usedEntries + 1 = _ := hafter.right
      omega
  · intro hnone
    unfold chargedQuotas
    rw [hnone]
    exact h

theorem accurate_inserted_iff (hnew : ¬ f.key ∈ fragments) :
    Accurate (chargedQuotas quotas f) (fragments.set f.key f) <-> Accurate quotas fragments := by
  have hset := tenantFragments_set hnew f
  constructor
  · intro h tenant quota hquota
    by_cases htenant : tenant = f.tenantId
    · have hcharged := h tenant (quota.charge f.payloadSize)
        (by rw [get?_chargedQuotas, if_pos htenant, hquota]; rfl)
      rw [hset tenant, if_pos htenant.symm, totalBytes_append, List.length_append]
        at hcharged
      simp only [TenantQuota.charge, totalBytes, List.map_cons, List.map_nil,
        List.sum_cons, List.sum_nil, List.length_singleton] at hcharged
      constructor
      · unfold totalBytes
        omega
      · omega
    · have hsame := h tenant quota
        (by rw [get?_chargedQuotas, if_neg htenant]; exact hquota)
      rwa [hset tenant, if_neg (fun heq => htenant heq.symm), List.append_nil] at hsame
  · intro h tenant quota hquota
    rw [get?_chargedQuotas] at hquota
    split_ifs at hquota with htenant
    · rcases Option.map_eq_some_iff.mp hquota with ⟨old, hold, hcharge⟩
      have hbefore := h tenant old hold
      rw [hset tenant, if_pos htenant.symm, totalBytes_append, List.length_append,
        ← hcharge]
      simp only [TenantQuota.charge, totalBytes, List.map_cons, List.map_nil,
        List.sum_cons, List.sum_nil, List.length_singleton]
      unfold totalBytes at hbefore
      constructor
      · omega
      · omega
    · rw [hset tenant, if_neg (fun heq => htenant heq.symm), List.append_nil]
      exact h tenant quota hquota

/-!
# The exact condition
-/

def Spares (quotas : Dict String TenantQuota) (fragments : Dict String Fragment)
    (keys : List String) : Prop :=
  forall k f, k ∈ keys -> fragments.get? k = some f -> quotas.get? f.tenantId = none

namespace Node

section Accounting

variable {sigma tau pi : Type} {n n' : Node sigma tau pi}

def QuotasAccurate (n : Node sigma tau pi) : Prop :=
  Accurate n.quotas n.fragments

theorem charged_quotas (h : (n.chargeQuota f).1 = true) :
    (n.charged f).quotas = chargedQuotas n.quotas f := by
  unfold charged recordTier chargedQuotas
  unfold chargeQuota at h ⊢
  cases hquota : n.quotas.get? f.tenantId with
  | none => rfl
  | some quota =>
    simp only [hquota] at h ⊢
    rcases quota.admitPayload_cases f.payloadSize with hfits | hfits
    · simp [hfits] at h
    · simp [hfits]

variable [InventoryHash] [ContentStore sigma]

theorem Evicts.accurate_iff (h : Evicts n victims n') (hbefore : Accurate quotas n.fragments) :
    Accurate quotas n'.fragments <-> Spares quotas n.fragments (victims.map Prod.fst) := by
  constructor
  · intro hafter k f hk hf
    cases hquota : quotas.get? f.tenantId with
    | none => rfl
    | some quota =>
      exfalso
      have hlength : ((tenantFragments n.fragments f.tenantId).filter
          (fun entry => entry.1 ∉ victims.map Prod.fst)).length =
          (tenantFragments n.fragments f.tenantId).length := by
        have hold := (hbefore f.tenantId quota hquota).right
        have hnew := (hafter f.tenantId quota hquota).right
        rw [(tenantFragments_perm h f.tenantId).length_eq] at hnew
        omega
      have hkept := List.length_filter_eq_length_iff.mp hlength (k, f)
        (mem_tenantFragments hf)
      exact of_decide_eq_true hkept hk
  · intro hspares tenant quota hquota
    have hkept : (tenantFragments n.fragments tenant).filter
        (fun entry => entry.1 ∉ victims.map Prod.fst) =
        tenantFragments n.fragments tenant := by
      apply List.filter_eq_self.mpr
      rintro ⟨k, f⟩ hentry
      rcases List.mem_filter.mp hentry with ⟨hmem, htenant⟩
      have hf := (n.fragments.get?_eq_some_iff k f).mpr hmem
      apply decide_eq_true
      intro hk
      have hnone := hspares k f hk hf
      rw [of_decide_eq_true htenant, hquota] at hnone
      cases hnone
    have hperm := tenantFragments_perm h tenant
    rw [hkept] at hperm
    rcases hbefore tenant quota hquota with ⟨hbytes, hentries⟩
    constructor
    · rw [hbytes]
      exact (hperm.map _).sum_eq.symm
    · rw [hentries, hperm.length_eq]

theorem Evicts.quotasAccurate_iff (h : Evicts n victims n') (hquotas : n.QuotasAccurate) :
    n'.QuotasAccurate <-> Spares n.quotas n.fragments (victims.map Prod.fst) := by
  unfold QuotasAccurate
  rw [h.frame.quotas]
  exact h.accurate_iff hquotas

variable [LowerTier tau] [EvictionPolicy pi]

def evictedKeys : Except (Raised sigma tau pi) (List String × Node sigma tau pi) -> List String
  | .error _ => []
  | .ok result => result.1

/-- The calls that keep accurate quotas accurate.  A store that its quota let
through must insert a fragment, unless the tenant has no quota, and a call must
not remove a fragment of a tenant with a quota. -/
def KeepsQuotas (n : Node sigma tau pi) : Mutation -> Prop
  | .store f _ caller _ evictTime =>
    n.PassesGates f caller ->
      if f.payloadSize ≤ n.maxMemoryBytes ∧ ¬ f.key ∈ n.fragments then
        Spares n.quotas n.fragments ((n.charged f).plannedVictims f evictTime)
      else n.quotas.get? f.tenantId = none
  | .removeFragment k => Spares n.quotas n.fragments [k]
  | .evict targetBytes now =>
    Spares n.quotas n.fragments (evictedKeys (n.evict targetBytes now))
  | .sweepExpired now =>
    Spares n.quotas n.fragments (evictedKeys (n.sweepExpired now))

theorem store_quotasAccurate_iff (hn : n.Invariant) (hquotas : n.QuotasAccurate)
    (f : Fragment) (isPrimary : Bool) (caller : Caller) (now evictTime : ℚ) :
    (n.store f isPrimary caller now evictTime).2.QuotasAccurate <->
      n.KeepsQuotas (.store f isPrimary caller now evictTime) := by
  unfold KeepsQuotas
  have hidle : n.PassesGates f caller ->
      (Accurate (n.charged f).quotas (n.charged f).fragments <->
        n.quotas.get? f.tenantId = none) := by
    intro hgates
    rw [charged_quotas hgates.right.right, charged_fragments]
    exact accurate_charged_iff hquotas f
  rcases store_cases hn f isPrimary caller now evictTime with
    ⟨hgates, _, hsame⟩ | ⟨hgates, hlarge, hstore⟩ | ⟨hgates, _, hk, hstore⟩ |
      ⟨hgates, hsize, hk, victims, room, hplan, hevicts, hnew, _, hstore⟩
  · rw [hsame]
    exact ⟨fun _ h => absurd h hgates, fun _ => hquotas⟩
  · simp only [hstore, hgates, forall_const]
    rw [if_neg (by omega)]
    exact hidle hgates
  · simp only [hstore, hgates, forall_const]
    rw [if_neg (fun h => h.right hk)]
    exact hidle hgates
  · simp only [hstore, hgates, forall_const]
    rw [if_pos ⟨hsize, hk⟩, ← hplan]
    show Accurate room.quotas (room.fragments.set f.key f) <-> _
    rw [hevicts.frame.quotas, charged_quotas hgates.right.right,
      accurate_inserted_iff hnew, hevicts.accurate_iff, charged_fragments]
    rw [charged_fragments]
    exact hquotas

theorem mutate_quotasAccurate_iff (hn : n.Invariant) (hquotas : n.QuotasAccurate)
    (m : Mutation) : (n.mutate m).QuotasAccurate <-> n.KeepsQuotas m := by
  cases m with
  | store f isPrimary caller now evictTime =>
    exact store_quotasAccurate_iff hn hquotas f isPrimary caller now evictTime
  | removeFragment k =>
    show (Node.after (n.removeFragment k)).QuotasAccurate <->
      Spares n.quotas n.fragments [k]
    cases hremove : n.removeFragment k with
    | error raised =>
      have habsent : ¬ k ∈ n.fragments := by
        intro hk
        rcases removeFragment_of_mem (Node.addressed _) hk with ⟨f, n', h⟩
        rw [hremove] at h
        cases h
      refine ⟨fun _ j f hj hf => ?_, fun _ => ?_⟩
      · rw [List.mem_singleton.mp hj] at hf
        exact absurd (Dict.mem_of_get? hf) habsent
      · exact (congrArg QuotasAccurate (raised_node_of_total hremove)).mpr hquotas
    | ok removed =>
      exact (removeFragment_evicts hn.toConsistent hremove).quotasAccurate_iff hquotas
  | evict targetBytes now =>
    rcases evict_evicts (Node.addressed _) hn.toConsistent targetBytes now with
      ⟨victims, n', hevict, hevicts, _⟩
    show (Node.after (n.evict targetBytes now)).QuotasAccurate <->
      Spares n.quotas n.fragments (evictedKeys (n.evict targetBytes now))
    rw [hevict]
    exact hevicts.quotasAccurate_iff hquotas
  | sweepExpired now =>
    rcases sweepExpired_evicts (Node.addressed _) hn.toConsistent now with
      ⟨victims, n', hsweep, hevicts⟩
    show (Node.after (n.sweepExpired now)).QuotasAccurate <->
      Spares n.quotas n.fragments (evictedKeys (n.sweepExpired now))
    rw [hsweep]
    exact hevicts.quotasAccurate_iff hquotas

end Accounting

/-!
# Quotas are never exceeded
-/

/-- What the tenant holds was charged, and what was charged is within the limits. -/
structure Within (limit quota : TenantQuota) (held : List (String × Fragment)) : Prop where
  maxBytes : quota.maxBytes = limit.maxBytes
  maxEntries : quota.maxEntries = limit.maxEntries
  bytes : totalBytes held ≤ quota.usedBytes
  entries : held.length ≤ quota.usedEntries
  usedBytes : forall cap, limit.maxBytes = some cap -> quota.usedBytes ≤ cap
  usedEntries : forall cap, limit.maxEntries = some cap -> quota.usedEntries ≤ cap

def TenantWithin (tenant : String) (limit : TenantQuota) (quotas : Dict String TenantQuota)
    (entries : List (String × Fragment)) : Prop :=
  exists quota, quotas.get? tenant = some quota ∧
    Within limit quota (entries.filter (fun entry => entry.2.tenantId = tenant))

section Limits

variable {limit quota : TenantQuota} {tenant : String} {held others : List (String × Fragment)}
  {sigma tau pi : Type} {n n' : Node sigma tau pi}

theorem totalBytes_le_of_subperm (h : others.Subperm held) :
    totalBytes others ≤ totalBytes held := by
  rcases h with ⟨part, hperm, hsub⟩
  unfold totalBytes
  rw [← (hperm.map _).sum_eq]
  apply (hsub.map _).sum_le_sum
  intro size hsize
  rcases List.mem_map.mp hsize with ⟨entry, _, heq⟩
  rw [← heq]
  exact entry.2.payloadSize_nonneg

theorem TenantWithin.subperm (h : TenantWithin tenant limit quotas held)
    (hsub : others.Subperm held) : TenantWithin tenant limit quotas others := by
  rcases h with ⟨quota, hquota, hwithin⟩
  have hfilter := hsub.filter (fun entry => entry.2.tenantId = tenant)
  refine ⟨quota, hquota, { hwithin with bytes := ?_, entries := ?_ }⟩
  · exact (totalBytes_le_of_subperm hfilter).trans hwithin.bytes
  · exact le_trans (Int.ofNat_le.mpr hfilter.length_le) hwithin.entries

theorem Within.charge (h : Within limit quota held)
    (hadmits : (quota.admitPayload f.payloadSize).1 = true) (k : String) :
    Within limit (quota.charge f.payloadSize) (held ++ [(k, f)]) := by
  have hlimits : quota.maxBytes.any (fun cap => cap < quota.usedBytes + f.payloadSize) = false ∧
      quota.maxEntries.any (fun cap => cap ≤ quota.usedEntries) = false := by
    unfold TenantQuota.admitPayload at hadmits
    split_ifs at hadmits with hbytes hentries
    exact ⟨Bool.eq_false_iff.mpr hbytes, Bool.eq_false_iff.mpr hentries⟩
  rw [h.maxBytes, h.maxEntries] at hlimits
  refine ⟨h.maxBytes, h.maxEntries, ?_, ?_, ?_, ?_⟩
  · rw [totalBytes_append]
    exact add_le_add h.bytes (le_of_eq (by simp [totalBytes]))
  · rw [List.length_append]
    exact add_le_add h.entries le_rfl
  · intro cap hcap
    rw [hcap] at hlimits
    exact not_lt.mp (of_decide_eq_false hlimits.left)
  · intro cap hcap
    rw [hcap] at hlimits
    exact not_le.mp (of_decide_eq_false hlimits.right)

/-- What was admitted and charged may be inserted. -/
theorem TenantWithin.charged (h : TenantWithin tenant limit n.quotas held)
    (hadmits : (n.chargeQuota f).1 = true) (k : String) :
    TenantWithin tenant limit (n.charged f).quotas (held ++ [(k, f)]) := by
  rcases h with ⟨quota, hquota, hwithin⟩
  unfold TenantWithin
  rw [charged_quotas hadmits, get?_chargedQuotas, hquota]
  by_cases htenant : f.tenantId = tenant
  · have hpayload : (quota.admitPayload f.payloadSize).1 = true := by
      unfold chargeQuota at hadmits
      rw [htenant, hquota] at hadmits
      by_contra hrefused
      simp [hrefused] at hadmits
    exact ⟨_, if_pos htenant.symm, by simpa [htenant] using hwithin.charge hpayload k⟩
  · exact ⟨quota, if_neg (Ne.symm htenant), by simpa [htenant] using hwithin⟩

variable [InventoryHash] [ContentStore sigma]

theorem TenantWithin.evicts (h : TenantWithin tenant limit n.quotas n.fragments.entries)
    (hevicts : Evicts n victims n') :
    TenantWithin tenant limit n'.quotas n'.fragments.entries := by
  rw [hevicts.frame.quotas]
  exact h.subperm (hevicts.entries_perm.subperm_right.mpr List.filter_sublist.subperm)

variable [LowerTier tau] [EvictionPolicy pi]

theorem TenantWithin.store (hn : n.Invariant)
    (h : TenantWithin tenant limit n.quotas n.fragments.entries) (f : Fragment)
    (isPrimary : Bool) (caller : Caller) (now evictTime : ℚ) :
    TenantWithin tenant limit (n.store f isPrimary caller now evictTime).2.quotas
      (n.store f isPrimary caller now evictTime).2.fragments.entries := by
  have hcharged : n.PassesGates f caller -> TenantWithin tenant limit (n.charged f).quotas
      ((n.charged f).fragments.entries ++ [(f.key, f)]) := by
    intro hgates
    rw [charged_fragments]
    exact h.charged hgates.right.right f.key
  rcases store_cases hn f isPrimary caller now evictTime with
    ⟨_, _, hsame⟩ | ⟨hgates, _, hstore⟩ | ⟨hgates, _, _, hstore⟩ |
      ⟨hgates, _, _, victims, room, _, hevicts, hnew, _, hstore⟩
  · rw [hsame]
    exact h
  · rw [hstore]
    exact (hcharged hgates).subperm (List.sublist_append_left _ _).subperm
  · rw [hstore]
    exact (hcharged hgates).subperm (List.sublist_append_left _ _).subperm
  · rw [hstore]
    show TenantWithin tenant limit room.quotas (room.fragments.set f.key f).entries
    rw [hevicts.frame.quotas, room.fragments.entries_set_of_not_mem f hnew]
    exact (hcharged hgates).subperm ((List.subperm_append_right _).mpr
      (hevicts.entries_perm.subperm_right.mpr List.filter_sublist.subperm))

/-- No run brings the fragments of a tenant past the limits that its quota was created with. -/
theorem run_within_limits {config : Config sigma tau pi}
    (hlimit : config.quotas.get? tenant = some limit) (hunused : Within limit limit [])
    (calls : List Call) :
    Throughout call (fun n =>
      (forall cap, limit.maxBytes = some cap ->
        totalBytes (tenantFragments n.fragments tenant) ≤ cap) ∧
      forall cap, limit.maxEntries = some cap ->
        (tenantFragments n.fragments tenant).length ≤ cap) (create config) calls := by
  have hkept : KeptBySteps (fun n : Node sigma tau pi =>
      n.Invariant ∧ TenantWithin tenant limit n.quotas n.fragments.entries) :=
    keptBySteps_of_evicts (fun _ hm => hm.left.toConsistent)
      (fun _ _ _ hevicts hm => ⟨hevicts.invariant hm.left, hm.right.evicts hevicts⟩)
      (fun _ tier hm => ⟨invariant_keptBySteps.taken _ tier hm.left, hm.right⟩)
      (fun _ store hm => ⟨invariant_keptBySteps.filled _ store hm.left, hm.right⟩)
      (fun _ f isPrimary caller now evictTime hm =>
        ⟨store_invariant hm.left, hm.right.store hm.left f isPrimary caller now evictTime⟩)
  have hstart : (create config).Invariant ∧
      TenantWithin tenant limit config.quotas (Dict.empty : Dict String Fragment).entries :=
    ⟨create_invariant config, limit, hlimit, hunused⟩
  intro completed hleading
  rcases (hkept.run hstart calls (along_of_forall addresses _ _) completed
    hleading).right with ⟨quota, _, hwithin⟩
  exact ⟨fun cap hcap => hwithin.bytes.trans (hwithin.usedBytes cap hcap),
    fun cap hcap => hwithin.entries.trans (hwithin.usedEntries cap hcap)⟩

end Limits

section LimitedTenant

attribute [local instance] InventoryHash.constant

def limitedQuota : TenantQuota :=
  { tenantId := "acme", maxBytes := some 100, maxEntries := some 1, usedBytes := 0,
    usedEntries := 0 }

/-- The second store asks for more than the quota has left. -/
theorem limitedTenant_within_limits :
    Throughout call (fun n =>
      (forall cap, limitedQuota.maxBytes = some cap ->
        totalBytes (tenantFragments n.fragments "acme") ≤ cap) ∧
      forall cap, limitedQuota.maxEntries = some cap ->
        (tenantFragments n.fragments "acme").length ≤ cap)
      (create { Config.default "n0" 500 with quotas := Dict.empty.set "acme" limitedQuota })
      [Node.storing acmeCopy, Node.storing acmeCopy] :=
  run_within_limits rfl ⟨rfl, rfl, le_rfl, le_rfl, by rintro cap ⟨⟩; decide,
    by rintro cap ⟨⟩; decide⟩ _

end LimitedTenant

/-!
# A repeated store
-/

section RepeatedStore

attribute [local instance] InventoryHash.constant

def acmeQuota : TenantQuota :=
  { tenantId := "acme", maxBytes := none, maxEntries := none, usedBytes := 0, usedEntries := 0 }

def quotaConfig : Config InProcessBytes Empty WeightedLRU :=
  { Config.default "n0" 100 with quotas := Dict.empty.set "acme" acmeQuota }

def acmeStore (now : ℚ) : Mutation :=
  .store acmeCopy true Caller.internal now now

theorem quotaConfig_accurate : (create quotaConfig).QuotasAccurate := by
  intro tenant quota hquota
  change (Dict.empty.set "acme" acmeQuota).get? tenant = some quota at hquota
  rw [Dict.get?_set] at hquota
  split_ifs at hquota
  · cases hquota
    exact ⟨rfl, rfl⟩
  · cases hquota

end RepeatedStore

end Node

end Serving
end Membrane
