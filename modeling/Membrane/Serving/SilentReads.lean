import Membrane.Serving.TenantView
import Membrane.Serving.WarmTier

/-!
# Reads that find nothing

A read resolves a hash through several keys, and for each key it asks the lower tier.
For a caller who may read everything this module states when a read finds nothing
whatever the clock says: no key that is tried is resident, no copy of another tenant is,
and the lower tier gives nothing back that the node takes.
-/

namespace Membrane
namespace Serving

open Foundation Data Store

/-!
# Lookups
-/

def CachedResident (t : FragmentTable) : Prop :=
  forall thread k entry, t.cached thread k = some entry ->
    t.fragments.get? k = some entry.1

theorem CachedResident.lookup_of_not_mem {t : FragmentTable} (h : CachedResident t)
    {k : String} (hk : ¬ k ∈ t.fragments) (thread : Thread) (now : Option ℚ) :
    t.lookup thread k now = (none, t.threadCache thread) := by
  have habsent := (t.fragments.get?_eq_none_iff k).mpr hk
  apply FragmentTable.lookup_of_absent now _ habsent
  cases hentry : (t.threadCache thread).cached thread k with
  | none => rfl
  | some entry =>
    rw [FragmentTable.cached_threadCache] at hentry
    have hresident := h thread k entry hentry
    rw [habsent] at hresident
    cases hresident

theorem lookup_of_mem {t : FragmentTable} {k : String} (hk : k ∈ t.fragments) (thread : Thread) :
    exists f expires, forall now, (t.lookup thread k now).1 = some (f, expires) := by
  cases hentry : (t.threadCache thread).cached thread k with
  | some entry =>
    refine ⟨entry.1, entry.2, fun now => ?_⟩
    rw [FragmentTable.lookup_of_cached now hentry]
  | none =>
    rcases (Dict.mem_iff_exists_get? _ k).mp hk with ⟨f, hf⟩
    refine ⟨f, (t.entryFor k f).2, fun now => ?_⟩
    rw [FragmentTable.lookup_of_found now hentry hf]
    rfl

def Privileged (caller : Caller) : Prop :=
  caller.tenant = "" ∨ hasAdminScope caller.scopes = true

variable {caller : Caller}

theorem Privileged.not_refused (h : Privileged caller) (tenant : String) :
    ¬ (caller.tenant ≠ "" ∧ canRead tenant caller = false) := by
  rintro ⟨hauthenticated, hrefused⟩
  rcases h with hempty | hadmin
  · exact hauthenticated hempty
  · unfold canRead authorizeRead at hrefused
    simp only [if_neg hauthenticated, hadmin, if_true] at hrefused
    cases hrefused

namespace Node

variable {sigma tau pi : Type}

def opened (n : Node sigma tau pi) (thread : Thread) : Node sigma tau pi :=
  { n with table := n.table.threadCache thread }

section Reads

variable [InventoryHash] [ContentStore sigma] {n : Node sigma tau pi} {k : String}

theorem readKey_of_not_mem (hcached : CachedResident n.table) (hk : ¬ k ∈ n.fragments)
    (thread : Thread) (caller : Caller) (now : ℚ) :
    n.readKey thread k caller now = (.ok none, n.opened thread) := by
  unfold readKey withLookup
  rw [hcached.lookup_of_not_mem hk]
  rfl

theorem readKey_of_mem (hk : k ∈ n.fragments) (hcaller : Privileged caller) (thread : Thread) :
    exists f now, (n.readKey thread k caller now).1 = .ok (some f) := by
  rcases lookup_of_mem hk thread with ⟨f, expires, hlookup⟩
  refine ⟨f, expires, ?_⟩
  unfold readKey
  rw [hlookup]
  unfold answerRead
  simp only
  rw [if_neg (hcaller.not_refused f.tenantId), if_neg (lt_irrefl expires)]

end Reads

/-!
# Copies of other tenants
-/

def NoCopies (n : Node sigma tau pi) (contentHash : String) : Prop :=
  forall k f, n.fragments.get? k = some f -> f.payloadHash ≠ contentHash

variable {h : String} {f : Fragment} {filled : Node sigma tau pi}

theorem tenantKeys_mem_iff [InventoryHash] {n : Node sigma tau pi} (hn : n.Invariant)
    (habsent : ¬ h ∈ n.fragments) : h ∈ n.table.tenantKeys <-> ¬ n.NoCopies h := by
  constructor
  · intro hmem hcopies
    rcases (Dict.mem_iff_exists_get? _ h).mp hmem with ⟨copies, hget⟩
    rcases Finset.nonempty_iff_ne_empty.mpr
      (fun hempty => hn.bookkeeping.tenants_nonempty h (hempty ▸ hget)) with ⟨k, hk⟩
    have hentry : k ∈ n.table.tenantKeys.getD h ∅ := by
      rw [Dict.getD, hget]
      exact hk
    rcases (hn.bookkeeping.tenants h k).mp hentry with ⟨f, hf, hhash, _⟩
    exact hcopies k f hf hhash
  · intro hcopies
    by_contra hmem
    apply hcopies
    intro k f hf hhash
    have hk : k ≠ h := fun heq => habsent (heq ▸ Dict.mem_of_get? hf)
    have hentry := (hn.bookkeeping.tenants h k).mpr ⟨f, hf, hhash, hk⟩
    rw [Dict.getD, (Dict.get?_eq_none_iff _ h).mpr hmem] at hentry
    exact absurd hentry (Finset.notMem_empty k)

/-!
# Asking the lower tier
-/

section Tier

variable [ContentStore sigma]

variable {payload : Option Bytes}

theorem putPromoted_ok_congr {n m : Node sigma tau pi} (h : m.contentStore = n.contentStore)
    (hput : exists filled, n.putPromoted f payload = .ok filled) :
    exists filled, m.putPromoted f payload = .ok filled := by
  rcases hput with ⟨filled, hfilled⟩
  unfold putPromoted at hfilled ⊢
  cases href : f.payloadRef with
  | none => exact ⟨m, rfl⟩
  | some ref =>
    cases payload with
    | none => exact ⟨m, rfl⟩
    | some data =>
      simp only [href] at hfilled
      simp only [h]
      cases hwritten : ContentStore.put n.contentStore ref data with
      | error message =>
        rw [hwritten] at hfilled
        cases hfilled
      | ok contentStore => exact ⟨_, rfl⟩

variable [LowerTier tau]

def KeyedTier (n : Node sigma tau pi) : Prop :=
  forall k item, n.fetched k = some item -> item.1.key = k

/-- The key is not resident, and what the lower tier has for it is taken without an
exception and refused by the node. -/
structure Silent (n : Node sigma tau pi) (k : String) : Prop where
  absent : ¬ k ∈ n.fragments
  taken : forall item, n.fetched k = some item ->
    exists filled, (n.taken k).putPromoted item.1 item.2 = .ok filled
  refused : forall item, n.fetched k = some item -> ¬ n.Accepts item.1 Caller.internal

def asked (n : Node sigma tau pi) (k : String) : Node sigma tau pi :=
  match n.fetched k with
  | none => n.taken k
  | some item =>
    match (n.taken k).putPromoted item.1 item.2 with
    | .error _ => n.taken k
    | .ok filled =>
      if filled.PassesGates item.1 Caller.internal then filled.charged item.1 else filled

variable {n : Node sigma tau pi} {k : String}

section

variable (n : Node sigma tau pi)

theorem asked_eq (k : String) :
    n.asked k =
      { n.taken k with
        contentStore := (n.asked k).contentStore
        quotas := (n.asked k).quotas
        selectedTiers := (n.asked k).selectedTiers } := by
  unfold asked
  cases n.fetched k with
  | none => rfl
  | some item =>
    simp only
    cases hput : (n.taken k).putPromoted item.1 item.2 with
    | error e => rfl
    | ok filled =>
      have hfilled := putPromoted_eq hput
      simp only
      split_ifs
      · rw [filled.charged_eq item.1, hfilled]
      · rw [hfilled]

@[simp] theorem asked_table (k : String) :
    (n.asked k).table = n.table := by
  rw [n.asked_eq k]
  rfl

theorem fetched_asked (j k : String) :
    (n.asked j).fetched k = (n.taken j).fetched k := by
  rw [n.asked_eq j]
  rfl

end

theorem accepts_filled_iff (hput : (n.taken k).putPromoted f payload = .ok filled) :
    filled.Accepts f Caller.internal <-> n.Accepts f Caller.internal := by
  have hfilled := putPromoted_eq hput
  unfold Accepts
  rw [passesGates_congr (m := n) (by rw [hfilled]; rfl) (by rw [hfilled]; rfl) Caller.internal]
  rw [show filled.maxMemoryBytes = n.maxMemoryBytes by rw [hfilled]; rfl]

theorem filled_invariant [InventoryHash] (hn : n.Invariant)
    (hput : (n.taken k).putPromoted f payload = .ok filled) : filled.Invariant := by
  rw [putPromoted_eq hput]
  exact ⟨⟨hn.bookkeeping, hn.tracked⟩, hn.capacity⟩

theorem Silent.congr {m : Node sigma tau pi} (h : n.Silent k)
    (hm : m = { n with table := m.table }) (hfragments : m.fragments = n.fragments) :
    m.Silent k := by
  have hfetched : m.fetched k = n.fetched k := by
    rw [hm]
    rfl
  have hstore : (m.taken k).contentStore = (n.taken k).contentStore := by
    rw [hm]
    rfl
  refine
    { absent := by rw [hfragments]; exact h.absent
      taken := fun item hitem =>
        putPromoted_ok_congr hstore (h.taken item (hfetched.symm.trans hitem))
      refused := fun item hitem haccepts => ?_ }
  apply h.refused item (hfetched.symm.trans hitem)
  refine ⟨(passesGates_congr ?_ ?_ Caller.internal).mp haccepts.left, ?_⟩
  · rw [hm]
  · rw [hm]
  · rw [hm] at haccepts
    exact haccepts.right

theorem silent_opened_iff (thread : Thread) : (n.opened thread).Silent k <-> n.Silent k :=
  ⟨fun h => h.congr rfl rfl, fun h => h.congr rfl rfl⟩

theorem fetched_of_not_silent (hk : ¬ k ∈ n.fragments) (h : ¬ n.Silent k) :
    exists item, n.fetched k = some item ∧
      ((exists e, (n.taken k).putPromoted item.1 item.2 = .error e) ∨
        exists filled, (n.taken k).putPromoted item.1 item.2 = .ok filled ∧
          n.Accepts item.1 Caller.internal) := by
  cases hitem : n.fetched k with
  | none =>
    exact absurd
      { absent := hk
        taken := fun item hsome => absurd (hitem.symm.trans hsome) nofun
        refused := fun item hsome => absurd (hitem.symm.trans hsome) nofun } h
  | some item =>
    refine ⟨item, rfl, ?_⟩
    cases hput : (n.taken k).putPromoted item.1 item.2 with
    | error e => exact Or.inl ⟨e, rfl⟩
    | ok filled =>
      refine Or.inr ⟨filled, rfl, ?_⟩
      by_contra hrefused
      refine h
        { absent := hk
          taken := fun other hother => ?_
          refused := fun other hother => ?_ }
      · cases hitem.symm.trans hother
        exact ⟨filled, hput⟩
      · cases hitem.symm.trans hother
        exact hrefused

end Tier

section Asking

variable [InventoryHash] [ContentStore sigma] [LowerTier tau] [EvictionPolicy pi]
  {n : Node sigma tau pi} {k : String}

theorem store_internal_of_refused (h : ¬ n.Accepts f Caller.internal) (now evictTime : ℚ) :
    n.store f false Caller.internal now evictTime =
      (.ok false, if n.PassesGates f Caller.internal then n.charged f else n) := by
  by_cases hgates : n.PassesGates f Caller.internal
  · have hlarge : (n.maxMemoryBytes : Int) < f.payloadSize :=
      not_le.mp (fun hfits => h ⟨hgates, hfits⟩)
    rw [store_of_passesGates hgates, if_pos hlarge, if_pos hgates]
  · rw [if_neg hgates]
    exact Prod.ext (store_of_declined hgates rfl)
      (store_of_not_passesGates hgates false now evictTime).right

theorem retrieveKey_of_not_mem (hk : ¬ k ∈ n.fragments) (thread : Thread) (caller : Caller)
    (times : ReadTimes) :
    n.retrieveKey thread k caller times =
      match n.promote k times with
      | (.error e, promoted) => (.error e, promoted)
      | (.ok _, promoted) => promoted.readKey thread k caller times.read := by
  unfold retrieveKey
  cases htier : n.lowerTier with
  | none =>
    rw [if_neg (by simp)]
    unfold promote
    simp only [htier]
  | some tier =>
    exact if_pos ⟨rfl, hk⟩

theorem retrieveKey_of_promoted (hk : ¬ k ∈ n.fragments) {thread : Thread} {times : ReadTimes}
    (hok : (n.promote k times).1 = .ok ()) :
    n.retrieveKey thread k caller times =
      (n.promote k times).2.readKey thread k caller times.read := by
  rw [retrieveKey_of_not_mem hk]
  cases hpromoted : n.promote k times with
  | mk answer promoted =>
    rw [hpromoted] at hok
    cases hok
    rfl

theorem retrieveKey_of_mem (hk : k ∈ n.fragments) (hcaller : Privileged caller) (thread : Thread)
    :
    exists times, (n.retrieveKey thread k caller times).1 ≠ .ok none := by
  rcases readKey_of_mem hk hcaller thread with ⟨f, now, hread⟩
  refine ⟨{ promoted := now, evicted := now, read := now }, ?_⟩
  unfold retrieveKey
  rw [if_neg (fun hand => hand.right hk), hread]
  nofun

theorem retrieveKey_of_silent (hcached : CachedResident n.table) (h : n.Silent k)
    (thread : Thread) (caller : Caller) (times : ReadTimes) :
    n.retrieveKey thread k caller times =
      (.ok none, (n.asked k).opened thread) := by
  have hread : (n.asked k).readKey thread k caller times.read =
      (.ok none, (n.asked k).opened thread) := by
    apply readKey_of_not_mem
    · rw [asked_table]
      exact hcached
    · show ¬ k ∈ (n.asked k).table.fragments
      rw [asked_table]
      exact h.absent
  rw [retrieveKey_of_not_mem h.absent, ← hread]
  unfold asked
  cases hitem : n.fetched k with
  | none => rw [promote_of_none hitem]
  | some item =>
    rcases h.taken item hitem with ⟨filled, hput⟩
    have hrefused : ¬ filled.Accepts item.1 Caller.internal :=
      fun haccepts => h.refused item hitem ((accepts_filled_iff hput).mp haccepts)
    rw [promote_of_some hitem]
    simp only [hput]
    rw [store_internal_of_refused hrefused]
    rfl

theorem promote_resident (hn : n.Invariant) {item : Fragment × Option Bytes}
    (hitem : n.fetched k = some item)
    (hput : (n.taken k).putPromoted item.1 item.2 = .ok filled)
    (haccepts : n.Accepts item.1 Caller.internal) (times : ReadTimes) :
    (n.promote k times).1 = .ok () ∧ item.1.key ∈ (n.promote k times).2.fragments := by
  have hfilled := filled_invariant hn hput
  have hstored := (store_eq_true_iff hfilled item.1 false Caller.internal times.promoted
    times.evicted).mpr ((accepts_filled_iff hput).mpr haccepts)
  rw [promote_of_some hitem, hput]
  simp only [hstored, Except.map]
  exact ⟨trivial, (mem_store_iff hfilled item.1 false Caller.internal _ _).mpr (Or.inr hstored)⟩

theorem retrieveKey_of_not_silent (hn : n.Invariant) (hkeyed : n.KeyedTier) (h : ¬ n.Silent k)
    (hcaller : Privileged caller) (thread : Thread) :
    exists times, (n.retrieveKey thread k caller times).1 ≠ .ok none := by
  by_cases hk : k ∈ n.fragments
  · exact retrieveKey_of_mem hk hcaller thread
  · rcases fetched_of_not_silent hk h with ⟨item, hitem, ⟨e, hput⟩ | ⟨filled, hput, haccepts⟩⟩
    · refine ⟨{ promoted := 0, evicted := 0, read := 0 }, ?_⟩
      rw [retrieveKey_of_not_mem hk, promote_of_some hitem, hput]
      nofun
    · have hresident : forall now, k ∈ (n.promote k ⟨0, 0, now⟩).2.fragments := by
        intro now
        have hmem := (promote_resident hn hitem hput haccepts ⟨0, 0, now⟩).right
        rw [hkeyed k item hitem] at hmem
        exact hmem
      rcases readKey_of_mem (hresident 0) hcaller thread with ⟨f, now, hread⟩
      refine ⟨{ promoted := 0, evicted := 0, read := now }, ?_⟩
      have hok := (promote_resident hn hitem hput haccepts ⟨0, 0, now⟩).left
      have hsame : (n.promote k ⟨0, 0, now⟩).2 = (n.promote k ⟨0, 0, 0⟩).2 := rfl
      rw [retrieveKey_of_promoted hk hok, hsame, hread]
      nofun

/-!
# Reads of a hash
-/

def FindsNothing (n : Node sigma tau pi) (contentHash : String) (caller : Caller) : Prop :=
  if keySeparator ∈ contentHash.toList then n.Silent contentHash
  else if caller.tenant ≠ "" ∧ caller.tenant ≠ defaultTenant then
    n.Silent (fragmentKey caller.tenant contentHash) ∧
      (n.asked (fragmentKey caller.tenant contentHash)).Silent contentHash ∧
      n.NoCopies contentHash
  else n.Silent contentHash ∧ n.NoCopies contentHash

theorem retrieveOther_of_copy (hn : n.Invariant) (habsent : ¬ h ∈ n.fragments)
    (hcopies : ¬ n.NoCopies h) (hcaller : Privileged caller) (thread : Thread) :
    exists times, (n.retrieveOther thread h caller times).1 ≠ .ok none := by
  have hallowed : ¬ (caller.tenant ≠ "" ∧ hasAdminScope caller.scopes = false) := by
    rintro ⟨hauthenticated, hadmin⟩
    rcases hcaller with hempty | hscope
    · exact hauthenticated hempty
    · rw [hadmin] at hscope
      cases hscope
  unfold retrieveOther
  simp only [if_neg hallowed]
  cases hother : n.table.anyTenantCopy h with
  | none =>
    exfalso
    rcases (Dict.mem_iff_exists_get? _ h).mp ((tenantKeys_mem_iff hn habsent).mpr hcopies) with
      ⟨copies, hget⟩
    have hne : copies.Nonempty := Finset.nonempty_iff_ne_empty.mpr
      (fun hempty => hn.bookkeeping.tenants_nonempty h (hempty ▸ hget))
    unfold FragmentTable.anyTenantCopy at hother
    simp only [Dict.getD, hget, Option.getD_some, dif_pos hne] at hother
    cases hother
  | some other =>
    exact retrieveKey_of_mem (mem_of_anyTenantCopy hn.toConsistent hother) hcaller thread

theorem retrieveDefault_of_silent (hcached : CachedResident n.table) (hsilent : n.Silent h)
    (thread : Thread) (caller : Caller) (times otherTimes : ReadTimes) :
    n.retrieveDefault thread h caller times otherTimes =
      if h ∈ n.table.tenantKeys then
        ((n.asked h).opened thread).retrieveOther thread h caller otherTimes
      else (.ok none, (n.asked h).opened thread) := by
  have hsame : ((n.asked h).opened thread).table.tenantKeys = n.table.tenantKeys := by
    show (n.asked h).table.tenantKeys = n.table.tenantKeys
    rw [asked_table]
  unfold retrieveDefault
  rw [retrieveKey_of_silent hcached hsilent]
  simp only [hsame]

section

variable (hn : n.Invariant) (hcached : CachedResident n.table)

include hn hcached

theorem opened_asked_sound (hsilent : n.Silent k) (thread : Thread) :
    ((n.asked k).opened thread).Invariant ∧
      CachedResident ((n.asked k).opened thread).table ∧
      ((n.asked k).opened thread).fragments = n.fragments := by
  have htable : ((n.asked k).opened thread).table = n.table.threadCache thread := by
    show (n.asked k).table.threadCache thread = n.table.threadCache thread
    rw [asked_table]
  refine ⟨?_, ?_, ?_⟩
  · have hread := invariant_keptBySteps.retrieveKey hn thread k Caller.internal
      (fun f _ => payloadFault_of_total f) ⟨0, 0, 0⟩
    rw [retrieveKey_of_silent hcached hsilent] at hread
    exact hread
  · rw [htable]
    intro other c entry hentry
    rw [FragmentTable.cached_threadCache] at hentry
    exact hcached other c entry hentry
  · show ((n.asked k).opened thread).table.fragments = n.fragments
    rw [htable]
    rfl

theorem retrieveDefault_of_nothing (hsilent : n.Silent h) (hcopies : n.NoCopies h)
    (thread : Thread) (caller : Caller) (times otherTimes : ReadTimes) :
    (n.retrieveDefault thread h caller times otherTimes).1 = .ok none := by
  rw [retrieveDefault_of_silent hcached hsilent,
    if_neg (fun hmem => (tenantKeys_mem_iff hn hsilent.absent).mp hmem hcopies)]

theorem nothing_of_retrieveDefault
    (hkeyed : n.KeyedTier) (hcaller : Privileged caller) {thread : Thread}
    (hall : forall times otherTimes,
      (n.retrieveDefault thread h caller times otherTimes).1 = .ok none) :
    n.Silent h ∧ n.NoCopies h := by
  have hsilent : n.Silent h := by
    by_contra hnot
    rcases retrieveKey_of_not_silent hn hkeyed hnot hcaller thread with ⟨times, hread⟩
    apply hread
    have hdefault := hall times times
    unfold retrieveDefault at hdefault
    split at hdefault
    · rename_i hresult
      rw [hresult]
    · exact hdefault
  refine ⟨hsilent, ?_⟩
  by_contra hcopies
  rcases opened_asked_sound hn hcached hsilent thread with ⟨hinvariant, _, hsame⟩
  rcases retrieveOther_of_copy hinvariant (by rw [hsame]; exact hsilent.absent)
    (fun hnone => hcopies (fun k f hf => hnone k f (by rw [hsame]; exact hf))) hcaller
    thread with ⟨times, hother⟩
  have hdefault := hall times times
  rw [retrieveDefault_of_silent hcached hsilent,
    if_pos ((tenantKeys_mem_iff hn hsilent.absent).mpr hcopies)] at hdefault
  exact hother hdefault

theorem retrieve_of_findsNothing (hnothing : n.FindsNothing h caller) (thread : Thread)
    (ownTimes times otherTimes : ReadTimes) :
    (n.retrieve thread h caller ownTimes times otherTimes).1 = .ok none := by
  unfold FindsNothing at hnothing
  unfold retrieve
  split_ifs at hnothing ⊢ with hseparator htenant
  · rw [retrieveKey_of_silent hcached hnothing]
  · rcases hnothing with ⟨hown, hdefault, hcopies⟩
    rcases opened_asked_sound hn hcached hown thread with ⟨hinvariant, hresident, hsame⟩
    rw [retrieveKey_of_silent hcached hown]
    apply retrieveDefault_of_nothing hinvariant hresident
    · exact (silent_opened_iff thread).mpr hdefault
    · intro k f hf
      exact hcopies k f (by rw [← hsame]; exact hf)
  · exact retrieveDefault_of_nothing hn hcached hnothing.left hnothing.right thread caller
      times otherTimes

theorem findsNothing_of_retrieve
    (hkeyed : n.KeyedTier) (hlater : forall j, (n.taken j).KeyedTier)
    (hcaller : Privileged caller)
    (hall : forall thread ownTimes times otherTimes,
      (n.retrieve thread h caller ownTimes times otherTimes).1 = .ok none) :
    n.FindsNothing h caller := by
  unfold retrieve at hall
  unfold FindsNothing
  split_ifs at hall ⊢ with hseparator htenant
  · by_contra hnot
    rcases retrieveKey_of_not_silent hn hkeyed hnot hcaller 0 with ⟨times, hread⟩
    exact hread (hall 0 times times times)
  · have hown : n.Silent (fragmentKey caller.tenant h) := by
      by_contra hnot
      rcases retrieveKey_of_not_silent hn hkeyed hnot hcaller 0 with ⟨times, hread⟩
      apply hread
      have hanswer := hall 0 times times times
      split at hanswer
      · rename_i hresult
        rw [hresult]
      · exact hanswer
    rcases opened_asked_sound hn hcached hown 0 with ⟨hinvariant, hresident, hsame⟩
    have htier : ((n.asked (fragmentKey caller.tenant h)).opened 0).KeyedTier := by
      intro c item hitem
      exact hlater _ c item ((n.fetched_asked _ c).symm.trans hitem)
    rcases nothing_of_retrieveDefault hinvariant hresident htier hcaller
      (fun times otherTimes => by
        have hanswer := hall 0 times times otherTimes
        rw [retrieveKey_of_silent hcached hown] at hanswer
        exact hanswer) with ⟨hdefault, hcopies⟩
    refine ⟨hown, (silent_opened_iff 0).mp hdefault, fun k f hf => ?_⟩
    exact hcopies k f (by rw [hsame]; exact hf)
  · exact nothing_of_retrieveDefault hn hcached hkeyed hcaller
      (fun times otherTimes => hall 0 times times otherTimes)

end

end Asking

/-!
# A warm tier below
-/

section Warm

variable {sigma rho pi : Type} [ContentStore rho] [FragmentCodec]
  {n : Node sigma (WarmTier rho) pi} {w : WarmTier rho}

section

variable (htier : n.lowerTier = some w)

include htier

theorem fetched_of_warm (k : String) :
    n.fetched k = (w.promote k).1 := by
  unfold fetched
  rw [htier]
  rfl

theorem lowerTier_taken_of_warm (k : String) :
    (n.taken k).lowerTier = some (w.promote k).2 := by
  unfold taken
  rw [htier]
  rfl

theorem keyedTier_of_filed (hw : w.Filed) :
    n.KeyedTier ∧ forall j, (n.taken j).KeyedTier := by
  constructor
  · intro k item hitem
    rw [fetched_of_warm htier] at hitem
    exact hw.key_of_promote hitem
  · intro j k item hitem
    rw [fetched_of_warm (lowerTier_taken_of_warm htier j)] at hitem
    exact (hw.promote j).key_of_promote hitem

end

end Warm

end Node

end Serving
end Membrane
