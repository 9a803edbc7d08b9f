import Membrane.Serving.CachedReads
import Membrane.Serving.QuotaAccounting

/-!
# What a tenant can observe

A caller of one tenant reads the fragments of that tenant and of the default
tenant.  Two nodes agree for the tenant when they hold the same of these fragments
and would take further ones in the same way.  Stores that evict nothing and reads
of single keys keep the agreement.
-/

namespace Membrane
namespace Serving

open Foundation Data Store

namespace Node

variable {sigma tau pi : Type}

/-!
# The tenant of an answer
-/

theorem canRead_tenant {tenant : String} {caller : Caller} (hcaller : caller.tenant ≠ "")
    (hadmin : hasAdminScope caller.scopes = false) (h : canRead tenant caller = true) :
    tenant = caller.tenant ∨ tenant = defaultTenant := by
  unfold canRead at h
  rw [if_neg hcaller] at h
  unfold authorizeRead at h
  rw [hadmin] at h
  cases hread : canReadTenant caller.tenant tenant with
  | false =>
    rw [hread] at h
    cases h
  | true =>
    unfold canReadTenant canAccessTenant at hread
    split_ifs at hread
    rw [Bool.or_eq_true, Bool.true_and, decide_eq_true_iff, decide_eq_true_iff] at hread
    exact hread

variable {f : Fragment} {k : String}

theorem canRead_of_tenant {caller : Caller}
    (h : f.tenantId = caller.tenant ∨ f.tenantId = defaultTenant) :
    canRead f.tenantId caller = true := by
  unfold canRead
  by_cases hcaller : caller.tenant = ""
  · exact if_pos hcaller
  rw [if_neg hcaller]
  have hnonempty : f.tenantId ≠ "" :=
    ((validateTenantId_eq_ok_iff _).mp f.tenantId_valid).left
  have hallowed : canReadTenant caller.tenant f.tenantId = true := by
    unfold canReadTenant canAccessTenant
    rw [if_neg (by simp [hcaller, hnonempty])]
    rcases h with h | h
    · simp [h]
    · rw [h]
      simp [defaultTenant, systemTenant]
  unfold authorizeRead
  rw [hallowed, if_pos rfl, ite_self]
  rfl

/-!
# Stores that evict nothing
-/

section Stores

theorem passesGates_congr {n m : Node sigma tau pi}
    (hadmission : n.admissionPolicy = m.admissionPolicy)
    (hquota : n.quotas.get? f.tenantId = m.quotas.get? f.tenantId) (caller : Caller) :
    n.PassesGates f caller <-> m.PassesGates f caller := by
  have hcharge : (n.chargeQuota f).1 = (m.chargeQuota f).1 := by
    unfold chargeQuota
    rw [hquota]
    cases m.quotas.get? f.tenantId with
    | none => rfl
    | some quota =>
      simp only
      split_ifs
      · rfl
      · rfl
  unfold PassesGates refusedByAdmission
  rw [hadmission, hcharge]

def Crowds (n : Node sigma tau pi) (f : Fragment) (caller : Caller) : Prop :=
  n.PassesGates f caller ∧ f.payloadSize ≤ n.maxMemoryBytes ∧ ¬ f.key ∈ n.fragments ∧
    (n.maxMemoryBytes : Int) < n.table.memoryUsage + f.payloadSize

instance (n : Node sigma tau pi) (f : Fragment) (caller : Caller) :
    Decidable (n.Crowds f caller) :=
  inferInstanceAs (Decidable (_ ∧ _ ∧ _ ∧ _))

end Stores

/-!
# Agreement on what a tenant may read
-/

def PlainHash (f : Fragment) : Prop := ¬ keySeparator ∈ f.payloadHash.toList

instance (f : Fragment) : Decidable (PlainHash f) :=
  inferInstanceAs (Decidable (¬ _))

/-!
# What the lower tier is asked for
-/

section Tier

variable {n n' m : Node sigma tau pi} {t : String}

theorem putPromoted_eq [ContentStore sigma] {payload : Option Bytes}
    (h : n.putPromoted f payload = .ok n') :
    n' = { n with contentStore := n'.contentStore } := by
  unfold putPromoted at h
  split at h
  · split at h
    · cases h
    · cases h
      rfl
  · cases h
    rfl

variable [LowerTier tau]

def fetched (n : Node sigma tau pi) (k : String) : Option (Fragment × Option Bytes) :=
  n.lowerTier.bind (fun tier => (LowerTier.promote tier k).1)

def taken (n : Node sigma tau pi) (k : String) : Node sigma tau pi :=
  { n with lowerTier := n.lowerTier.map (fun tier => (LowerTier.promote tier k).2) }

def Lacks (n : Node sigma tau pi) (k : String) : Prop :=
  forall tier, n.lowerTier = some tier -> LowerTier.promote tier k = (none, tier)

/-- A read of a key neither meets an expired fragment nor brings one back that is
expired or makes the node evict. -/
def Calm (n : Node sigma tau pi) (k : String) (times : ReadTimes) : Prop :=
  n.table.isExpired k times.read = false ∧
    (¬ k ∈ n.fragments -> forall item, item ∈ n.fetched k ->
      PlainHash item.1 ∧ ¬ n.Crowds item.1 Caller.internal ∧
        times.read ≤ times.promoted + item.1.ttl)

/-- The lower tier is left alone: the key is resident, or the tier lacks it. -/
def StaysLocal (n : Node sigma tau pi) (k : String) : Prop :=
  k ∈ n.fragments ∨ n.Lacks k

end Tier

/-!
# Reads of one key
-/

theorem isExpired_of_not_mem {n : Node sigma tau pi} (hk : ¬ k ∈ n.fragments) (now : ℚ) :
    n.table.isExpired k now = false := by
  unfold FragmentTable.isExpired
  rw [show n.table.fragments.get? k = none from (n.fragments.get?_eq_none_iff k).mpr hk]

def readable (n : Node sigma tau pi) (k : String) (caller : Caller) : Option Fragment :=
  (n.fragments.get? k).filter
    (fun f => decide (caller.tenant = "") || canRead f.tenantId caller)

section Reading

variable [InventoryHash]

/-- The invariant of a node whose caches are right and whose payload hashes are
free of the key separator. -/
structure Sound (n : Node sigma tau pi) : Prop extends Invariant n where
  right : forall k, EntriesRight n.table k
  plain : forall k f, n.fragments.get? k = some f -> PlainHash f

theorem create_sound (config : Config sigma tau pi) : (create config).Sound where
  toInvariant := create_invariant config
  right _ _ _ h := by cases h
  plain _ _ h := by cases h

variable {n n' m m' : Node sigma tau pi} {t : String}

theorem Consistent.timed (hn : n.Consistent) (hf : n.fragments.get? k = some f) :
    exists inserted, n.table.insertionTimes.get? k = some inserted :=
  (Dict.mem_iff_exists_get? _ k).mp
    ((hn.bookkeeping.insertion k).mpr (Dict.mem_of_get? hf))

theorem EntriesRight.lookup {t : FragmentTable} (hbook : t.Bookkeeping)
    (hright : forall k, EntriesRight t k) (thread : Thread) (k : String) (now : Option ℚ)
    (c : String) : EntriesRight (t.lookup thread k now).2 c := by
  have hcaches := t.lookup_cachesOnly thread k now
  have hfragments : (t.lookup thread k now).2.fragments = t.fragments := by
    rw [hcaches]
  have htimes : (t.lookup thread k now).2.insertionTimes = t.insertionTimes := by
    rw [hcaches]
  intro other entry hentry
  unfold EntryRule.At
  rw [hfragments, htimes]
  rcases cached_lookup_cases hentry with hold | ⟨hkey, f, hf, hentry⟩
  · exact hright c other entry hold
  · rcases (Dict.mem_iff_exists_get? _ k).mp
      ((hbook.insertion k).mpr (Dict.mem_of_get? hf)) with ⟨inserted, htime⟩
    rw [entryFor_of_timed htime] at hentry
    rw [hkey]
    exact expiresRight_at_iff.mpr ⟨f, inserted, hf, htime, hentry⟩

theorem withLookup_sound (hn : n.Sound) (thread : Thread) (k : String) (now : Option ℚ) :
    (n.withLookup thread k now).Sound := by
  have hcaches := n.table.lookup_cachesOnly thread k now
  have hfragments : (n.table.lookup thread k now).2.fragments = n.table.fragments := by
    rw [hcaches]
  have hinvariant : (n.withLookup thread k now).Invariant := by
    unfold withLookup
    rw [hcaches]
    exact ⟨⟨hn.bookkeeping.with_reads _ _, hn.tracked⟩, hn.capacity⟩
  refine
    { toInvariant := hinvariant
      right := EntriesRight.lookup hn.bookkeeping hn.right thread k now
      plain := ?_ }
  intro c f hf
  exact hn.plain c f (by rw [← show (n.withLookup thread k now).fragments =
    n.fragments from hfragments]; exact hf)

theorem mem_of_anyTenantCopy (hn : n.Consistent) {contentHash other : String}
    (h : n.table.anyTenantCopy contentHash = some other) : other ∈ n.fragments := by
  unfold FragmentTable.anyTenantCopy at h
  simp only at h
  split_ifs at h with hcopies
  cases h
  rcases (hn.bookkeeping.tenants contentHash _).mp (Finset.min'_mem _ hcopies) with
    ⟨f, hf, _⟩
  exact Dict.mem_of_get? hf

variable [ContentStore sigma]

theorem readKey_of_fresh (hn : n.Sound) {now : ℚ} (hfresh : n.table.isExpired k now = false)
    (thread : Thread) (caller : Caller) :
    n.readKey thread k caller now =
      (.ok (n.readable k caller), n.withLookup thread k (some now)) := by
  unfold readKey readable
  cases hf : n.fragments.get? k with
  | none =>
    have hcached : (n.table.threadCache thread).cached thread k = none := by
      cases hentry : (n.table.threadCache thread).cached thread k with
      | none => rfl
      | some entry =>
        rw [FragmentTable.cached_threadCache] at hentry
        have hresident := (hn.right k thread entry hentry).left
        have habsent : n.table.fragments.get? k = none := hf
        rw [habsent] at hresident
        cases hresident
    rw [FragmentTable.lookup_of_absent (some now) hcached hf]
    rfl
  | some f =>
    rcases hn.timed hf with ⟨inserted, htime⟩
    rw [lookup_of_entriesRight (hn.right k) hf htime thread (some now)]
    have hlive : ¬ inserted + f.ttl < now :=
      not_lt.mpr ((isExpired_eq_false_iff hf htime now).mp hfresh)
    unfold answerRead
    by_cases hcaller : caller.tenant = ""
    · simp [hcaller, hlive, Option.filter_some]
    · cases hread : canRead f.tenantId caller with
      | false => simp [hcaller, hread, Option.filter_some]
      | true => simp [hcaller, hread, hlive, Option.filter_some]

variable [LowerTier tau] [EvictionPolicy pi]

theorem retrieveKey_of_staysLocal (hn : n.Sound) {times : ReadTimes} (hcalm : n.Calm k times)
    (hlocal : n.StaysLocal k) (thread : Thread) (caller : Caller) :
    n.retrieveKey thread k caller times =
      (.ok (n.readable k caller), n.withLookup thread k (some times.read)) := by
  rw [← readKey_of_fresh hn hcalm.left thread caller]
  unfold retrieveKey
  split_ifs with hconsulted
  · rcases hlocal with hk | hlacks
    · exact absurd hk hconsulted.right
    · have hpromote : n.promote k times = (.ok (), n) := by
        unfold promote
        cases htier : n.lowerTier with
        | none => rfl
        | some tier =>
          simp only [hlacks tier htier]
          rw [← htier]
      rw [hpromote]
  · rfl

theorem promote_of_none (h : n.fetched k = none) (times : ReadTimes) :
    n.promote k times = (.ok (), n.taken k) := by
  unfold promote taken
  unfold fetched at h
  cases htier : n.lowerTier with
  | none =>
    show (Except.ok (), n) = (Except.ok (), { n with lowerTier := none })
    rw [← htier]
  | some tier =>
    rw [htier, Option.bind_some] at h
    simp only [h]
    rfl

theorem promote_of_some {item : Fragment × Option Bytes} (h : n.fetched k = some item)
    (times : ReadTimes) :
    n.promote k times =
      match (n.taken k).putPromoted item.1 item.2 with
      | .error e => (.error e, n.taken k)
      | .ok filled =>
        ((filled.store item.1 false Caller.internal times.promoted times.evicted).1.map
          (fun _ => ()),
        (filled.store item.1 false Caller.internal times.promoted times.evicted).2) := by
  unfold promote taken
  unfold fetched at h
  cases htier : n.lowerTier with
  | none =>
    rw [htier] at h
    cases h
  | some tier =>
    rw [htier, Option.bind_some] at h
    simp only [h]
    rfl

end Reading

end Node

end Serving
end Membrane
