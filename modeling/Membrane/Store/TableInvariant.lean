import Mathlib.Algebra.Order.BigOperators.Group.List
import Membrane.Store.Table

/-!
# Bookkeeping of the fragment table

The redundant structures of the table are all determined by the map of
resident fragments.  The invariant states how, one field per structure, and
the lemmas show that insertion of an absent fragment and removal of a resident
one keep them in step.  The access times follow the resident fragments only
once a new fragment has been touched, so they are kept apart.
-/

namespace Membrane
namespace Store

open Foundation Data

/-!
# What the resident fragments add up to
-/

def residentBytes (fragments : Dict String Fragment) : Int :=
  (fragments.values.map (fun f => f.payloadSize)).sum

def payloadUsers (fragments : Dict String Fragment) (ref : String) : Nat :=
  fragments.values.countP (fun f => f.payloadRef = some ref)

theorem residentBytes_nonneg (fragments : Dict String Fragment) :
    0 ≤ residentBytes fragments := by
  apply List.sum_nonneg
  intro size hsize
  rcases List.mem_map.mp hsize with ⟨f, _hf, heq⟩
  rw [← heq]
  exact f.payloadSize_nonneg

variable {fragments : Dict String Fragment} {k : String} {f : Fragment}

theorem residentBytes_of_empty (h : forall k, ¬ k ∈ fragments) :
    residentBytes fragments = 0 := by
  have hnone : fragments.values = [] := by
    rw [List.eq_nil_iff_forall_not_mem]
    intro f hf
    rcases (fragments.mem_values_iff f).mp hf with ⟨k, hk⟩
    exact h k (Dict.mem_of_get? hk)
  unfold residentBytes
  rw [hnone]
  rfl

theorem residentBytes_set_of_not_mem (f : Fragment) (h : ¬ k ∈ fragments) :
    residentBytes (fragments.set k f) = residentBytes fragments + f.payloadSize := by
  unfold residentBytes
  rw [((fragments.values_set_perm k f).map _).sum_eq,
    fragments.erase_of_not_mem h, List.map_cons, List.sum_cons, Int.add_comm]

theorem residentBytes_erase (h : fragments.get? k = some f) :
    residentBytes (fragments.erase k) = residentBytes fragments - f.payloadSize := by
  unfold residentBytes
  rw [((Dict.values_perm_of_get? h).map _).sum_eq, List.map_cons, List.sum_cons,
    add_sub_cancel_left]

theorem payloadUsers_set_of_not_mem (f : Fragment) (h : ¬ k ∈ fragments) (ref : String) :
    payloadUsers (fragments.set k f) ref =
      payloadUsers fragments ref + if f.payloadRef = some ref then 1 else 0 := by
  unfold payloadUsers
  rw [(fragments.values_set_perm k f).countP_eq, fragments.erase_of_not_mem h,
    List.countP_cons]
  simp

theorem payloadUsers_erase (h : fragments.get? k = some f) (ref : String) :
    payloadUsers fragments ref =
      payloadUsers (fragments.erase k) ref +
        if f.payloadRef = some ref then 1 else 0 := by
  unfold payloadUsers
  rw [(Dict.values_perm_of_get? h).countP_eq, List.countP_cons]
  simp

theorem payloadUsers_pos_iff (fragments : Dict String Fragment) (ref : String) :
    0 < payloadUsers fragments ref <->
      exists k f, fragments.get? k = some f ∧ f.payloadRef = some ref := by
  unfold payloadUsers
  rw [List.countP_pos_iff]
  constructor
  · rintro ⟨f, hmem, href⟩
    rcases (fragments.mem_values_iff f).mp hmem with ⟨k, hk⟩
    exact ⟨k, f, hk, of_decide_eq_true href⟩
  · rintro ⟨k, f, hk, href⟩
    exact ⟨f, (fragments.mem_values_iff f).mpr ⟨k, hk⟩, decide_eq_true href⟩

/-!
# The invariant
-/

/-- A counter is kept only while it is positive. -/
def countEntry (n : Nat) : Option Int :=
  if n = 0 then none else some n

namespace FragmentTable

def AccessTracked (t : FragmentTable) : Prop :=
  forall k, k ∈ t.accessTimes <-> k ∈ t.fragments

theorem accessTracked_create : create.AccessTracked := by
  intro k
  simp [create]

theorem touch_accessTracked {t : FragmentTable}
    (h : forall j, j ∈ t.accessTimes ∨ j = k <-> j ∈ t.fragments) (now : ℚ) (isPrimary : Bool) :
    (t.touch k now isPrimary).AccessTracked := by
  intro j
  show j ∈ t.accessTimes.set k now <-> j ∈ t.fragments
  rw [Dict.mem_set, ← h j]
  exact or_comm

/-- A hash whose last copy goes loses its entry. -/
theorem pop_tenantKeys_get? (t : FragmentTable) (k : String) (f : Fragment)
    (payloadHash : String) :
    (t.popTenantKey k f).tenantKeys.get? payloadHash =
      if payloadHash = f.payloadHash then
        ((t.tenantKeys.get? payloadHash).map (fun copies => copies.erase k)).filter
          (fun copies => copies ≠ ∅)
      else t.tenantKeys.get? payloadHash := by
  unfold popTenantKey
  by_cases hhash : payloadHash = f.payloadHash
  · rw [if_pos hhash, hhash]
    cases hcopies : t.tenantKeys.get? f.payloadHash with
    | none => exact hcopies
    | some copies =>
      by_cases hempty : copies.erase k = ∅ <;> simp [hempty, Option.filter_some]
  · rw [if_neg hhash]
    cases t.tenantKeys.get? f.payloadHash with
    | none => rfl
    | some copies =>
      simp only
      split_ifs
      · exact Dict.get?_erase_of_ne _ hhash
      · exact Dict.get?_set_of_ne _ _ hhash

theorem pop_tenantKeys_getD (t : FragmentTable) (k : String) (f : Fragment)
    (payloadHash : String) :
    (t.popTenantKey k f).tenantKeys.getD payloadHash ∅ =
      if payloadHash = f.payloadHash then (t.tenantKeys.getD payloadHash ∅).erase k
      else t.tenantKeys.getD payloadHash ∅ := by
  unfold Dict.getD
  rw [pop_tenantKeys_get?]
  split_ifs
  · cases t.tenantKeys.get? payloadHash with
    | none => rfl
    | some copies => by_cases hempty : copies.erase k = ∅ <;> simp [hempty, Option.filter_some]
  · rfl

theorem mem_foldl_mergeAccess {times : Dict String ℚ}
    (h : forall k, k ∈ times <-> k ∈ fragments) (accesses : List (String × ℚ)) (k : String) :
    k ∈ accesses.foldl (mergeAccess fragments) times <-> k ∈ fragments := by
  induction accesses generalizing times with
  | nil => exact h k
  | cons access rest ih =>
    apply ih
    intro j
    unfold mergeAccess
    split_ifs with hmerge
    · rw [Dict.mem_set, h j]
      constructor
      · rintro (hj | hj)
        · rw [hj]
          exact hmerge.left
        · exact hj
      · exact Or.inr
    · rw [h j]

theorem recency_accessTracked {t : FragmentTable} (h : t.AccessTracked) :
    t.recency.AccessTracked := by
  intro k
  exact List.foldlRecOn t.caches.values _
    (motive := fun times => forall k, k ∈ times <-> k ∈ t.fragments) h
    (fun times htimes cache _ => mem_foldl_mergeAccess htimes cache.accesses.entries) k

/-- Two tables that agree in everything but the read caches. -/
def CachesOnly (t t' : FragmentTable) : Prop :=
  t' = { t with caches := t'.caches }

theorem CachesOnly.trans {t₁ t₂ t₃ : FragmentTable} (h₁ : CachesOnly t₁ t₂)
    (h₂ : CachesOnly t₂ t₃) : CachesOnly t₁ t₃ := by
  rw [h₁] at h₂
  exact h₂

theorem lookup_cachesOnly (t : FragmentTable) (thread : Thread) (k : String)
    (now : Option ℚ) : CachesOnly t (t.lookup thread k now).2 := by
  have hopen : CachesOnly t (t.threadCache thread) := rfl
  have hread : forall table : FragmentTable,
      CachesOnly table (table.recordRead thread k now) := fun _ => rfl
  unfold lookup
  cases hcached : (t.threadCache thread).cached thread k with
  | some entry =>
    simp only [hcached]
    exact hopen.trans (hread _)
  | none =>
    simp only [hcached]
    cases (t.threadCache thread).fragments.get? k with
    | none => exact hopen
    | some f =>
      have hclear : forall table : FragmentTable,
          CachesOnly table (table.clearFullCache thread) := fun _ => rfl
      have hfill : forall (table : FragmentTable) (entry : CacheEntry),
          CachesOnly table (table.fillCache thread k entry) := fun _ _ => rfl
      have hvalidate : forall (table : FragmentTable) (removals : Nat),
          CachesOnly table (table.validateFill thread k removals) := fun _ _ => rfl
      exact hopen.trans ((hclear _).trans ((hfill _ _).trans
        ((hvalidate _ _).trans (hread _))))

variable [InventoryHash]

structure Bookkeeping (t : FragmentTable) : Prop where
  keyed : forall k f, t.fragments.get? k = some f -> f.key = k
  memory : t.memoryUsage = residentBytes t.fragments
  digest : t.digest.Mirrors
    (fun k => (t.fragments.get? k).map (fun f => f.versionId))
  refs : forall ref,
    t.payloadRefs.get? ref = countEntry (payloadUsers t.fragments ref)
  tenants : forall h k, k ∈ t.tenantKeys.getD h ∅ <->
    exists f, t.fragments.get? k = some f ∧ f.payloadHash = h ∧ k ≠ h
  tenants_nonempty : forall h, t.tenantKeys.get? h ≠ some ∅
  insertion : forall k, k ∈ t.insertionTimes <-> k ∈ t.fragments
  primary : forall k, k ∈ t.primaryHashes -> k ∈ t.fragments

theorem bookkeeping_create : create.Bookkeeping where
  keyed k f h := by cases h
  memory := rfl
  digest := InventoryDigest.mirrors_empty
  refs ref := rfl
  tenants h k := by simp [create, Dict.getD]
  tenants_nonempty h := by simp [create]
  insertion k := by simp [create]
  primary k h := by simp [create] at h

variable {t : FragmentTable}

theorem Bookkeeping.references_eq (h : t.Bookkeeping) (ref : String) :
    t.references ref = payloadUsers t.fragments ref := by
  unfold references Dict.getD
  rw [h.refs ref]
  unfold countEntry
  by_cases hzero : payloadUsers t.fragments ref = 0 <;> simp [hzero]

/-!
# Insertion
-/

theorem add_refs (h : t.Bookkeeping) (hnew : ¬ f.key ∈ t.fragments) (now : ℚ)
    (ref : String) :
    (t.add f now).payloadRefs.get? ref =
      countEntry (payloadUsers (t.add f now).fragments ref) := by
  have hheld : forall r, t.payloadRefs.getD r 0 = payloadUsers t.fragments r :=
    h.references_eq
  show (t.addPayloadRef f).payloadRefs.get? ref =
    countEntry (payloadUsers (t.fragments.set f.key f) ref)
  rw [payloadUsers_set_of_not_mem f hnew]
  unfold addPayloadRef
  cases hf : f.payloadRef with
  | none => simpa using h.refs ref
  | some own =>
    by_cases href : ref = own
    · subst href
      simp [Dict.get?_set_self, hheld, countEntry]
    · have hne : own ≠ ref := Ne.symm href
      simp [Dict.get?_set_of_ne _ _ href, hne, h.refs ref]

theorem add_tenants (h : t.Bookkeeping) (hnew : ¬ f.key ∈ t.fragments) (now : ℚ)
    (payloadHash k : String) :
    k ∈ (t.add f now).tenantKeys.getD payloadHash ∅ <->
      exists g, (t.add f now).fragments.get? k = some g ∧
        g.payloadHash = payloadHash ∧ k ≠ payloadHash := by
  show k ∈ (if f.key ≠ f.payloadHash then
      t.tenantKeys.set f.payloadHash
        (insert f.key (t.tenantKeys.getD f.payloadHash ∅))
      else t.tenantKeys).getD payloadHash ∅ <->
    exists g, (t.fragments.set f.key f).get? k = some g ∧
      g.payloadHash = payloadHash ∧ k ≠ payloadHash
  have hold := h.tenants payloadHash k
  have hnone : t.fragments.get? f.key = none :=
    (t.fragments.get?_eq_none_iff f.key).mpr hnew
  by_cases hkf : k = f.key
  · subst hkf
    have hnotOld : ¬ f.key ∈ t.tenantKeys.getD payloadHash ∅ := by
      rw [hold]
      simp [hnone]
    split_ifs with howner
    · by_cases hhash : payloadHash = f.payloadHash
      · subst hhash
        simp [Dict.getD, Dict.get?_set_self, howner]
      · have hget : (t.tenantKeys.set f.payloadHash
            (insert f.key (t.tenantKeys.getD f.payloadHash ∅))).getD payloadHash ∅ =
              t.tenantKeys.getD payloadHash ∅ := by
          unfold Dict.getD
          rw [Dict.get?_set_of_ne _ _ hhash]
        rw [hget]
        simp [hnotOld, Dict.get?_set_self, Ne.symm hhash]
    · rw [not_not] at howner
      simp only [hnotOld, Dict.get?_set_self, false_iff]
      rintro ⟨g, hg, hghash, hne⟩
      cases hg
      exact hne (by rw [howner, hghash])
  · rw [Dict.get?_set_of_ne _ _ hkf, ← hold]
    split_ifs
    · by_cases hhash : payloadHash = f.payloadHash
      · subst hhash
        simp [Dict.getD, Dict.get?_set_self, hkf]
      · unfold Dict.getD
        rw [Dict.get?_set_of_ne _ _ hhash]
    · rfl

theorem add_tenants_nonempty (h : t.Bookkeeping) (f : Fragment)
    (now : ℚ) (payloadHash : String) :
    (t.add f now).tenantKeys.get? payloadHash ≠ some ∅ := by
  show (if f.key ≠ f.payloadHash then
      t.tenantKeys.set f.payloadHash
        (insert f.key (t.tenantKeys.getD f.payloadHash ∅))
      else t.tenantKeys).get? payloadHash ≠ some ∅
  split_ifs
  · rw [Dict.get?_set]
    by_cases hhash : payloadHash = f.payloadHash
    · simp [hhash]
    · rw [if_neg hhash]
      exact h.tenants_nonempty payloadHash
  · exact h.tenants_nonempty payloadHash

theorem add_bookkeeping (h : t.Bookkeeping) (hnew : ¬ f.key ∈ t.fragments) (now : ℚ) :
    (t.add f now).Bookkeeping where
  keyed := by
    intro k g hg
    change (t.fragments.set f.key f).get? k = some g at hg
    rw [Dict.get?_set] at hg
    split_ifs at hg with hk
    · cases hg
      exact hk.symm
    · exact h.keyed k g hg
  memory := by
    show t.memoryUsage + f.payloadSize = residentBytes (t.fragments.set f.key f)
    rw [residentBytes_set_of_not_mem f hnew, h.memory]
  digest := by
    have hadd := InventoryDigest.add_mirrors h.digest f.key f.versionId
    have hinventory :
        (fun k => ((t.fragments.set f.key f).get? k).map (fun g => g.versionId)) =
          Function.update
            (fun k => (t.fragments.get? k).map (fun g => g.versionId))
            f.key (some f.versionId) := by
      funext k
      rw [Dict.get?_set]
      by_cases hk : k = f.key
      · simp [hk]
      · simp [hk]
    show (t.digest.add f.key f.versionId).Mirrors
      (fun k => ((t.fragments.set f.key f).get? k).map (fun g => g.versionId))
    rw [hinventory]
    exact hadd
  refs := add_refs h hnew now
  tenants := add_tenants h hnew now
  tenants_nonempty := add_tenants_nonempty h f now
  insertion := by
    intro k
    show k ∈ t.insertionTimes.set f.key now <-> k ∈ t.fragments.set f.key f
    rw [Dict.mem_set, Dict.mem_set, h.insertion k]
  primary := by
    intro k hk
    show k ∈ t.fragments.set f.key f
    rw [Dict.mem_set]
    exact Or.inr (h.primary k hk)

theorem touch_bookkeeping (h : t.Bookkeeping) (hk : k ∈ t.fragments) (now : ℚ) (isPrimary : Bool)
    : (t.touch k now isPrimary).Bookkeeping :=
  { h with
    primary := by
      intro j hj
      cases isPrimary with
      | false => exact h.primary j hj
      | true =>
        rcases Finset.mem_insert.mp hj with hjk | hold
        · rw [hjk]
          exact hk
        · exact h.primary j hold }

/-!
# Removal
-/

theorem pop_eq_some_iff (t : FragmentTable) (k : String) (f : Fragment) (t' : FragmentTable) :
    t.pop k = some (f, t') <->
      t.fragments.get? k = some f ∧
        t' = (((t.popFragment k).countRemoval).popCaches k).popBookkeeping k f := by
  unfold pop
  cases hget : t.fragments.get? k with
  | none => simp
  | some g =>
    simp only [Option.some.injEq, Prod.mk.injEq]
    constructor
    · rintro ⟨hg, ht'⟩
      subst hg
      exact ⟨rfl, ht'.symm⟩
    · rintro ⟨hg, ht'⟩
      subst hg
      exact ⟨rfl, ht'.symm⟩

theorem pop_eq_none_iff (t : FragmentTable) (k : String) :
    t.pop k = none <-> ¬ k ∈ t.fragments := by
  rw [← Dict.get?_eq_none_iff]
  unfold pop
  cases t.fragments.get? k <;> simp

variable {t' : FragmentTable}

theorem pop_fragments (h : t.pop k = some (f, t')) : t'.fragments = t.fragments.erase k := by
  rcases (pop_eq_some_iff t k f t').mp h with ⟨_, ht'⟩
  rw [ht']
  rfl

theorem pop_get? (h : t.pop k = some (f, t')) : t.fragments.get? k = some f :=
  ((pop_eq_some_iff t k f t').mp h).left

theorem pop_refs (h : t.Bookkeeping) (hf : t.fragments.get? k = some f) (ref : String) :
    (match f.payloadRef with
      | none => t.payloadRefs
      | some r =>
        if 0 < t.payloadRefs.getD r 1 - 1 then
          t.payloadRefs.set r (t.payloadRefs.getD r 1 - 1)
        else t.payloadRefs.erase r).get? ref =
      countEntry (payloadUsers (t.fragments.erase k) ref) := by
  have husers := payloadUsers_erase hf ref
  have hrefs := h.refs ref
  cases hpayload : f.payloadRef with
  | none =>
    rw [hpayload] at husers
    simp only [reduceCtorEq, if_false, Nat.add_zero] at husers
    rw [hrefs, husers]
  | some own =>
    simp only
    by_cases href : ref = own
    · subst href
      rw [hpayload, if_pos rfl] at husers
      have hheld : t.payloadRefs.getD ref 1 =
          payloadUsers (t.fragments.erase k) ref + 1 := by
        unfold Dict.getD
        rw [hrefs, husers]
        simp [countEntry]
      rw [hheld, Int.add_sub_cancel]
      by_cases hzero : payloadUsers (t.fragments.erase k) ref = 0
      · simp [hzero, countEntry]
      · have hpos : (0 : Int) < payloadUsers (t.fragments.erase k) ref := by omega
        rw [if_pos hpos]
        simp [countEntry, hzero]
    · have hother : f.payloadRef ≠ some ref := by
        rw [hpayload]
        intro heq
        exact href (Option.some.inj heq).symm
      rw [if_neg hother, Nat.add_zero] at husers
      rw [← husers, ← hrefs]
      split_ifs
      · rw [Dict.get?_set_of_ne _ _ href]
      · rw [Dict.get?_erase_of_ne _ href]

theorem pop_tenants (h : t.Bookkeeping) (hf : t.fragments.get? k = some f)
    (payloadHash j : String) :
    j ∈ (t.popTenantKey k f).tenantKeys.getD payloadHash ∅ <->
      exists g, (t.fragments.erase k).get? j = some g ∧
        g.payloadHash = payloadHash ∧ j ≠ payloadHash := by
  rw [pop_tenantKeys_getD, Dict.get?_erase]
  have hold := h.tenants payloadHash j
  by_cases hjk : j = k
  · subst hjk
    simp only [if_true, reduceCtorEq, false_and, exists_false, iff_false]
    by_cases hhash : payloadHash = f.payloadHash
    · simp [hhash]
    · rw [if_neg hhash, hold]
      rintro ⟨g, hg, hghash, _⟩
      rw [hf] at hg
      cases hg
      exact hhash hghash.symm
  · rw [if_neg hjk, ← hold]
    by_cases hhash : payloadHash = f.payloadHash
    · simp [hhash, hjk]
    · rw [if_neg hhash]

theorem pop_tenants_nonempty (h : t.Bookkeeping) (k : String)
    (f : Fragment) (payloadHash : String) :
    (t.popTenantKey k f).tenantKeys.get? payloadHash ≠ some ∅ := by
  rw [pop_tenantKeys_get?]
  split_ifs
  · simp [Option.filter_eq_some_iff]
  · exact h.tenants_nonempty payloadHash

theorem pop_bookkeeping (h : t.Bookkeeping) (hpop : t.pop k = some (f, t')) :
    t'.Bookkeeping := by
  rcases (pop_eq_some_iff t k f t').mp hpop with ⟨hf, ht'⟩
  subst ht'
  constructor
  · intro j g hg
    change (t.fragments.erase k).get? j = some g at hg
    rw [Dict.get?_erase] at hg
    by_cases hjk : j = k
    · rw [if_pos hjk] at hg
      cases hg
    · rw [if_neg hjk] at hg
      exact h.keyed j g hg
  · show t.memoryUsage - f.payloadSize = residentBytes (t.fragments.erase k)
    rw [residentBytes_erase hf, h.memory]
  · have hremove := InventoryDigest.remove_mirrors h.digest k
    have hinventory :
        (fun j => ((t.fragments.erase k).get? j).map (fun g => g.versionId)) =
          Function.update
            (fun j => (t.fragments.get? j).map (fun g => g.versionId)) k none := by
      funext j
      rw [Dict.get?_erase]
      by_cases hjk : j = k
      · simp [hjk]
      · simp [hjk]
    show (t.digest.remove k).Mirrors
      (fun j => ((t.fragments.erase k).get? j).map (fun g => g.versionId))
    rw [hinventory]
    exact hremove
  · exact pop_refs h hf
  · exact pop_tenants h hf
  · exact pop_tenants_nonempty h k f
  · intro j
    show j ∈ t.insertionTimes.erase k <-> j ∈ t.fragments.erase k
    rw [Dict.mem_erase, Dict.mem_erase, h.insertion j]
  · intro j hj
    rcases Finset.mem_erase.mp hj with ⟨hjk, hold⟩
    exact (Dict.mem_erase _ _ _).mpr ⟨hjk, h.primary j hold⟩

theorem pop_accessTracked (h : t.AccessTracked) (hpop : t.pop k = some (f, t')) :
    t'.AccessTracked := by
  rcases (pop_eq_some_iff t k f t').mp hpop with ⟨_, ht'⟩
  subst ht'
  intro j
  show j ∈ t.accessTimes.erase k <-> j ∈ t.fragments.erase k
  rw [Dict.mem_erase, Dict.mem_erase, h j]

/-!
# Reads
-/

theorem Bookkeeping.with_reads (h : t.Bookkeeping) (accessTimes : Dict String ℚ)
    (caches : Dict Thread ReadCache) :
    { t with accessTimes := accessTimes, caches := caches }.Bookkeeping :=
  { keyed := h.keyed
    memory := h.memory
    digest := h.digest
    refs := h.refs
    tenants := h.tenants
    tenants_nonempty := h.tenants_nonempty
    insertion := h.insertion
    primary := h.primary }

theorem recency_bookkeeping (h : t.Bookkeeping) : t.recency.Bookkeeping :=
  h.with_reads _ _

end FragmentTable

end Store
end Membrane
