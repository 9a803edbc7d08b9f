import Membrane.Serving.LocatedReads
import Membrane.Serving.WarmAccounting
import Membrane.Store.RecordedReads

/-!
# Reads that are refused

A caller who may not read a fragment is answered as if it were absent.  The check comes
last: before it, the key was asked for in the lower tier and its read was recorded.  A
refused read leaves no trace exactly when there was nothing to take from the tier and
nothing new to record.
-/

namespace Membrane
namespace Serving

open Foundation Data Store

/-!
# What the warm tier holds
-/

variable {item : Fragment × Option Bytes} {f : Fragment}

namespace WarmTier

variable {rho : Type} [ContentStore rho] [FragmentCodec]

/-- The tier holds the fragment under the key, written or queued. -/
def Holds (w : WarmTier rho) (k : String) (f : Fragment) : Prop :=
  (exists payload, w.pending.get? k = some (f, payload)) ∨ k ∈ w.index ∧ w.load k = some f

variable {w : WarmTier rho} {k : String}

theorem promote_of_pending (h : w.pending.get? k = some item) :
    w.promote k = (some item, { w with pending := w.pending.erase k }) := by
  unfold promote
  rw [h]

theorem promote_of_listed (h : w.pending.get? k = none) (hk : k ∈ w.index) :
    (w.promote k).2 = w.drop k ∧
      forall item, (w.promote k).1 = some item -> w.load k = some item.1 := by
  unfold promote
  simp only [h, hk, not_true_eq_false, if_false]
  cases hload : w.load k with
  | none =>
    refine ⟨rfl, fun item hitem => ?_⟩
    cases hitem
  | some f =>
    simp only
    split_ifs
    · refine ⟨rfl, fun item hitem => ?_⟩
      cases hitem
    · refine ⟨rfl, fun item hitem => ?_⟩
      cases hitem
      rfl

theorem promote_of_neither (h : w.pending.get? k = none) (hk : ¬ k ∈ w.index) :
    w.promote k = (none, w) := by
  unfold promote
  simp only [h, hk, not_false_eq_true, if_true]

theorem holds_of_promote (h : (w.promote k).1 = some item) : w.Holds k item.1 := by
  cases hpending : w.pending.get? k with
  | some waiting =>
    rw [promote_of_pending hpending] at h
    cases h
    exact Or.inl ⟨item.2, hpending⟩
  | none =>
    by_cases hk : k ∈ w.index
    · exact Or.inr ⟨hk, (promote_of_listed hpending hk).right item h⟩
    · rw [promote_of_neither hpending hk] at h
      cases h

theorem Filed.key_of_holds (h : w.Filed) (hf : w.Holds k f) : f.key = k := by
  rcases hf with ⟨payload, hpending⟩ | ⟨_, hload⟩
  · exact h.pending k (f, payload) hpending
  · exact h.stored k f hload

theorem drop_index (w : WarmTier rho) (k : String) : (w.drop k).index = w.index.erase k := by
  rw [drop_eq_frame, unlist_eq]

theorem promote_ne_of_contains (h : w.contains k = true) : (w.promote k).2 ≠ w := by
  intro hsame
  cases hpending : w.pending.get? k with
  | some item =>
    rw [promote_of_pending hpending] at hsame
    have herased : w.pending.erase k = w.pending := congrArg WarmTier.pending hsame
    have hgone := w.pending.get?_erase_self k
    rw [herased, hpending] at hgone
    cases hgone
  | none =>
    by_cases hk : k ∈ w.index
    · rw [(promote_of_listed hpending hk).left] at hsame
      have herased : w.index.erase k = w.index := by
        rw [← drop_index, hsame]
      have hgone := w.index.not_mem_erase k
      rw [herased] at hgone
      exact hgone hk
    · unfold contains at h
      rw [decide_eq_false hk,
        decide_eq_false ((w.pending.get?_eq_none_iff k).mp hpending)] at h
      cases h

/-!
# Keys that the tier has nothing readable for
-/

theorem pending_of_not_holds (h : forall f, ¬ w.Holds k f) : w.pending.get? k = none := by
  cases hpending : w.pending.get? k with
  | none => rfl
  | some item => exact absurd (Or.inl ⟨item.2, hpending⟩) (h item.1)

theorem promote_of_not_holds (h : forall f, ¬ w.Holds k f) :
    (w.promote k).1 = none ∧ (w.promote k).2.index = w.index.erase k ∧
      (w.promote k).2.pending = w.pending := by
  have hpending := pending_of_not_holds h
  refine ⟨?_, ?_⟩
  · cases hitem : (w.promote k).1 with
    | none => rfl
    | some item => exact absurd (holds_of_promote hitem) (h item.1)
  · by_cases hk : k ∈ w.index
    · rw [(promote_of_listed hpending hk).left, drop_eq_frame, unlist_eq]
      exact ⟨rfl, rfl⟩
    · rw [promote_of_neither hpending hk, w.index.erase_of_not_mem hk]
      exact ⟨rfl, rfl⟩

theorem not_holds_of_not_contains (h : w.contains k = false) : ¬ w.Holds k f := by
  unfold contains at h
  rw [Bool.or_eq_false_iff, decide_eq_false_iff_not, decide_eq_false_iff_not] at h
  rintro (⟨payload, hpending⟩ | ⟨hk, _⟩)
  · exact h.right (Dict.mem_of_get? hpending)
  · exact h.left hk

theorem holds_of_promoted {j : String} (hf : (w.promote k).2.Holds j f) : w.Holds j f := by
  cases hpending : w.pending.get? k with
  | some item =>
    rw [promote_of_pending hpending] at hf
    rcases hf with ⟨payload, hwaiting⟩ | hstored
    · rw [Dict.get?_erase] at hwaiting
      split_ifs at hwaiting
      exact Or.inl ⟨payload, hwaiting⟩
    · exact Or.inr hstored
  | none =>
    by_cases hk : k ∈ w.index
    · rw [(promote_of_listed hpending hk).left] at hf
      rcases hf with ⟨payload, hwaiting⟩ | ⟨hj, hload⟩
      · rw [drop_pending] at hwaiting
        exact Or.inl ⟨payload, hwaiting⟩
      · rw [drop_index] at hj
        exact Or.inr ⟨((w.index.mem_erase k j).mp hj).right, load_of_drop hload⟩
    · rw [promote_of_neither hpending hk] at hf
      exact hf

theorem contains_of_not_holds (h : forall f, ¬ w.Holds k f) :
    w.contains k = decide (k ∈ w.index) := by
  unfold contains
  rw [decide_eq_false ((w.pending.get?_eq_none_iff k).mp (pending_of_not_holds h)),
    Bool.or_false]

end WarmTier

/-!
# A refused read of one key
-/

namespace Node

theorem canRead_of_key {caller : Caller} {tenant h : String}
    (hvalid : ¬ keySeparator ∈ tenant.toList) (hbare : ¬ keySeparator ∈ h.toList)
    (htenant : tenant = caller.tenant ∨ tenant = defaultTenant)
    (hkey : f.key = fragmentKey tenant h) : canRead f.tenantId caller = true := by
  apply canRead_of_tenant
  rcases Fragment.tenant_of_key hvalid hbare hkey with hown | hpublic
  · rcases htenant with hmine | hdefault
    · exact Or.inl (hown.trans hmine)
    · exact Or.inr (hown.trans hdefault)
  · exact Or.inr hpublic

section Effects

variable {sigma tau pi : Type}

/-- Nothing that a caller could notice later has changed: what is resident, the memory in
use, the last access to each key, the payloads and the lower tier. -/
structure Unaffected (n n' : Node sigma tau pi) : Prop where
  fragments : n'.fragments = n.fragments
  memoryUsage : n'.table.memoryUsage = n.table.memoryUsage
  recency : forall k, n'.table.lastAccess k = n.table.lastAccess k
  payloads : n'.contentStore = n.contentStore
  lowerTier : n'.lowerTier = n.lowerTier

variable {n : Node sigma tau pi} {k : String} {caller : Caller}

theorem withLookup_unaffected_iff (thread : Thread) (k : String) (now : Option ℚ) :
    Unaffected n (n.withLookup thread k now) <->
      forall j, (n.table.lookup thread k now).2.lastAccess j = n.table.lastAccess j := by
  have hcaches := n.table.lookup_cachesOnly thread k now
  constructor
  · exact fun h => h.recency
  · intro h
    refine ⟨?_, ?_, h, rfl, rfl⟩
    · show (n.table.lookup thread k now).2.fragments = n.table.fragments
      rw [hcaches]
    · show (n.table.lookup thread k now).2.memoryUsage = n.table.memoryUsage
      rw [hcaches]

theorem Unaffected.trans {m l : Node sigma tau pi} (h : Unaffected n m)
    (h' : Unaffected m l) : Unaffected n l where
  fragments := h'.fragments.trans h.fragments
  memoryUsage := h'.memoryUsage.trans h.memoryUsage
  recency k := (h'.recency k).trans (h.recency k)
  payloads := h'.payloads.trans h.payloads
  lowerTier := h'.lowerTier.trans h.lowerTier

variable [InventoryHash]

theorem otherAccess_of_mem (hn : n.Invariant) (hk : k ∈ n.fragments) (thread : Thread) :
    exists other, n.table.otherAccess thread k = some other := by
  have htracked : ({ n.table with
      caches := n.table.caches.erase thread } : FragmentTable).AccessTracked := hn.tracked
  exact (Dict.mem_iff_exists_get? _ k).mp
    ((FragmentTable.recency_accessTracked htracked k).mpr hk)

theorem withLookup_of_not_mem (hn : n.ReadsResident) (hk : ¬ k ∈ n.fragments)
    (thread : Thread) (now : Option ℚ) : Unaffected n (n.withLookup thread k now) := by
  rw [withLookup_unaffected_iff]
  apply FragmentTable.lastAccess_lookup_of_none
  rw [hn.cached.lookup_of_not_mem hk]

theorem withLookup_of_mem (hn : n.ReadsResident) (hk : k ∈ n.fragments) (thread : Thread)
    (now : ℚ) :
    Unaffected n (n.withLookup thread k (some now)) <-> n.table.Recorded thread k now := by
  rcases otherAccess_of_mem hn.toInvariant hk thread with ⟨other, hother⟩
  rcases lookup_of_mem hk thread with ⟨f, expires, hlookup⟩
  rw [withLookup_unaffected_iff]
  exact FragmentTable.lastAccess_lookup_iff (hlookup (some now)) hk hother

variable [ContentStore sigma]

theorem readKey_of_refused (hcached : CachedResident n.table) (hcaller : caller.tenant ≠ "")
    (hrefused : forall f, n.fragments.get? k = some f -> canRead f.tenantId caller = false)
    (thread : Thread) (now : ℚ) :
    n.readKey thread k caller now = (.ok none, n.withLookup thread k (some now)) := by
  unfold readKey
  cases hentry : (n.table.lookup thread k (some now)).1 with
  | none => rfl
  | some entry =>
    have hresident := hcached.lookup_resident hentry
    unfold answerRead
    simp only
    rw [if_pos ⟨hcaller, hrefused entry.1 hresident⟩]

variable [LowerTier tau] [EvictionPolicy pi]

theorem get?_of_promote (hn : n.Invariant) (hitem : n.fetched k = some item)
    {filled : Node sigma tau pi}
    (hput : (n.taken k).putPromoted item.1 item.2 = .ok filled) {times : ReadTimes}
    {j : String} {g : Fragment} (hg : (n.promote k times).2.fragments.get? j = some g) :
    n.fragments.get? j = some g ∨ j = item.1.key ∧ g = item.1 := by
  have hfragments : filled.fragments = n.fragments := by
    rw [putPromoted_eq hput]
    rfl
  rw [promote_of_some hitem, hput] at hg
  rw [← hfragments]
  exact get?_of_store (filled_invariant hn hput) hg

end Effects

/-!
# Keys above a warm tier
-/

section Warm

variable {sigma rho pi : Type} [ContentStore rho] [FragmentCodec]
  {n : Node sigma (WarmTier rho) pi} {w : WarmTier rho} {k : String} {caller : Caller}

structure Vacant (n : Node sigma (WarmTier rho) pi) (w : WarmTier rho) (k : String) :
    Prop where
  absent : ¬ k ∈ n.fragments
  unheld : forall f, ¬ w.Holds k f

/-- The keys that a read by a named caller without the admin scope looks up, each with the
time of its lookup. -/
def tried (caller : Caller) (h : String) (ownTime time : ℚ) : List (String × ℚ) :=
  if keySeparator ∈ h.toList then [(h, time)]
  else if caller.tenant ≠ "" ∧ caller.tenant ≠ defaultTenant then
    [(fragmentKey caller.tenant h, ownTime), (h, time)]
  else [(h, time)]

/-- The caller may read nothing that the key resolves to, resident or in the tier. -/
def Refused (n : Node sigma (WarmTier rho) pi) (w : WarmTier rho) (caller : Caller)
    (k : String) : Prop :=
  forall f, n.fragments.get? k = some f ∨ ¬ k ∈ n.fragments ∧ w.Holds k f ->
    canRead f.tenantId caller = false

/-- A resident key's read is recorded already; any other key is unknown to the tier. -/
def Traceless (n : Node sigma (WarmTier rho) pi) (w : WarmTier rho) (thread : Thread)
    (k : String) (now : ℚ) : Prop :=
  (k ∈ n.fragments -> n.table.Recorded thread k now) ∧
    (¬ k ∈ n.fragments -> w.contains k = false)

def Unnoticed (n : Node sigma (WarmTier rho) pi)
    (result : Except NodeError (Option Fragment) × Node sigma (WarmTier rho) pi) : Prop :=
  result.1 = .ok none ∧ Unaffected n result.2

theorem lowerTier_asked_of_warm [ContentStore sigma] (htier : n.lowerTier = some w)
    (k : String) : (n.asked k).lowerTier = some (w.promote k).2 := by
  rw [n.asked_eq k]
  exact lowerTier_taken_of_warm htier k

variable [InventoryHash]

theorem unaffected_of_not_contains (hn : n.ReadsResident) (htier : n.lowerTier = some w)
    (hk : ¬ k ∈ n.fragments) (hcontains : w.contains k = false) (thread : Thread) :
    Unaffected n ((n.taken k).opened thread) := by
  have htaken : n.taken k = n := by
    unfold taken
    rw [htier]
    show { n with lowerTier := some (w.promote k).2 } = n
    rw [WarmTier.promote_of_not_contains w hcontains, ← htier]
  have hopened : n.withLookup thread k none = n.opened thread := by
    unfold withLookup opened
    rw [hn.cached.lookup_of_not_mem hk]
  rw [htaken, ← hopened]
  exact withLookup_of_not_mem hn hk thread none

theorem vacant_of_refused (hn : n.ReadsResident) (hw : w.Filed) {tenant h : String}
    (hvalid : ¬ keySeparator ∈ tenant.toList) (hbare : ¬ keySeparator ∈ h.toList)
    (htenant : tenant = caller.tenant ∨ tenant = defaultTenant)
    (hrefused : n.Refused w caller (fragmentKey tenant h)) :
    n.Vacant w (fragmentKey tenant h) := by
  have hreadable := fun f : Fragment => canRead_of_key (f := f) hvalid hbare htenant
  have habsent : ¬ fragmentKey tenant h ∈ n.fragments := by
    intro hmem
    rcases (Dict.mem_iff_exists_get? _ _).mp hmem with ⟨f, hf⟩
    have hno := hrefused f (Or.inl hf)
    rw [hreadable f (hn.bookkeeping.keyed _ f hf)] at hno
    cases hno
  refine ⟨habsent, fun f hf => ?_⟩
  have hno := hrefused f (Or.inr ⟨habsent, hf⟩)
  rw [hreadable f (hw.key_of_holds hf)] at hno
  cases hno

variable [ContentStore sigma] [EvictionPolicy pi]

/-- A read takes a key that the tier contains out of it.  A refused one may leave it
resident. -/
theorem retrieveKey_of_contains (hn : n.ReadsResident) (htier : n.lowerTier = some w)
    (hw : w.Filed) (hcaller : caller.tenant ≠ "") (hk : ¬ k ∈ n.fragments)
    (hcontains : w.contains k = true)
    (hrefused : forall f, w.Holds k f -> canRead f.tenantId caller = false)
    (thread : Thread) (times : ReadTimes) :
    ¬ ((n.retrieveKey thread k caller times).1 = .ok none ∧
      Unaffected n (n.retrieveKey thread k caller times).2) := by
  rintro ⟨hanswer, hsame⟩
  by_cases hsilent : n.Silent k
  · rw [retrieveKey_of_silent hn.cached hsilent] at hsame
    have htiers : (n.asked k).lowerTier = n.lowerTier := hsame.lowerTier
    rw [lowerTier_asked_of_warm htier, htier, Option.some.injEq] at htiers
    exact WarmTier.promote_ne_of_contains hcontains htiers
  · rcases fetched_of_not_silent hk hsilent with
      ⟨item, hitem, ⟨e, hput⟩ | ⟨filled, hput, haccepts⟩⟩
    · rw [retrieveKey_of_not_mem hk, promote_of_some hitem, hput] at hanswer
      cases hanswer
    · have hheld : w.Holds k item.1 :=
        WarmTier.holds_of_promote ((fetched_of_warm htier k).symm.trans hitem)
      rcases promote_resident hn.toInvariant hitem hput haccepts times with ⟨hok, hmem⟩
      rw [hw.key_of_holds hheld] at hmem
      have hstored : forall f, (n.promote k times).2.fragments.get? k = some f ->
          canRead f.tenantId caller = false := by
        intro f hf
        rcases get?_of_promote hn.toInvariant hitem hput hf with hold | ⟨_, heq⟩
        · exact absurd (Dict.mem_of_get? hold) hk
        · rw [heq]
          exact hrefused item.1 hheld
      have hpromoted := readsResident_keptBySteps.promote hn.both k
        (fun f _ => payloadFault_of_total f) times
      rw [retrieveKey_of_promoted hk hok,
        readKey_of_refused hpromoted.right hcaller hstored] at hsame
      have hlookup := (n.promote k times).2.table.lookup_cachesOnly thread k (some times.read)
      have hfragments : (n.promote k times).2.fragments = n.fragments := by
        rw [← hsame.fragments]
        show _ = ((n.promote k times).2.table.lookup thread k (some times.read)).2.fragments
        rw [hlookup]
        rfl
      rw [hfragments] at hmem
      exact hk hmem

section

variable (h : n.Vacant w k) (hn : n.ReadsResident) (htier : n.lowerTier = some w)

include h hn htier

theorem Vacant.retrieveKey (thread : Thread) (times : ReadTimes) :
    n.retrieveKey thread k caller times = (.ok none, (n.taken k).opened thread) := by
  have hfetched : n.fetched k = none :=
    (fetched_of_warm htier k).trans (WarmTier.promote_of_not_holds h.unheld).left
  have hasked : n.asked k = n.taken k := by
    unfold asked
    rw [hfetched]
  have hsilent : n.Silent k :=
    { absent := h.absent
      taken := fun item hitem => absurd (hfetched.symm.trans hitem) nofun
      refused := fun item hitem => absurd (hfetched.symm.trans hitem) nofun }
  rw [retrieveKey_of_silent hn.cached hsilent, hasked]

theorem Vacant.retrieveDefault (hcaller : caller.tenant ≠ "")
    (hadmin : hasAdminScope caller.scopes = false) (thread : Thread)
    (times otherTimes : ReadTimes) :
    n.retrieveDefault thread k caller times otherTimes =
      (.ok none, (n.taken k).opened thread) := by
  unfold Node.retrieveDefault
  rw [h.retrieveKey hn htier]
  simp only
  split_ifs
  · unfold retrieveOther
    rw [if_pos ⟨hcaller, hadmin⟩]
  · rfl

end

theorem retrieveKey_unnoticed_iff (hn : n.ReadsResident) (htier : n.lowerTier = some w)
    (hw : w.Filed) (hcaller : caller.tenant ≠ "") (hrefused : n.Refused w caller k)
    (thread : Thread) (times : ReadTimes) :
    n.Unnoticed (n.retrieveKey thread k caller times) <->
      n.Traceless w thread k times.read := by
  by_cases hk : k ∈ n.fragments
  · have hread : n.retrieveKey thread k caller times =
        (.ok none, n.withLookup thread k (some times.read)) := by
      unfold retrieveKey
      rw [if_neg (fun hand => hand.right hk)]
      exact readKey_of_refused hn.cached hcaller (fun f hf => hrefused f (Or.inl hf)) thread _
    rw [hread]
    constructor
    · intro h
      exact ⟨fun _ => (withLookup_of_mem hn hk thread _).mp h.right, fun hnot => absurd hk hnot⟩
    · intro h
      exact ⟨rfl, (withLookup_of_mem hn hk thread _).mpr (h.left hk)⟩
  · constructor
    · intro h
      refine ⟨fun hmem => absurd hmem hk, fun _ => ?_⟩
      by_contra hcontains
      exact retrieveKey_of_contains hn htier hw hcaller hk
        (Bool.eq_true_of_not_eq_false hcontains) (fun f hf => hrefused f (Or.inr ⟨hk, hf⟩))
        thread times h
    · intro h
      have hcontains := h.right hk
      have hvacant : n.Vacant w k :=
        { absent := hk
          unheld := fun f hf => WarmTier.not_holds_of_not_contains hcontains hf }
      rw [hvacant.retrieveKey hn htier]
      exact ⟨rfl, unaffected_of_not_contains hn htier hk hcontains thread⟩

theorem retrieve_of_vacant (hn : n.ReadsResident) (htier : n.lowerTier = some w) {h : String}
    (hbare : ¬ keySeparator ∈ h.toList) (hcaller : caller.tenant ≠ "")
    (hnamed : caller.tenant ≠ defaultTenant) (hadmin : hasAdminScope caller.scopes = false)
    (hown : n.Vacant w (fragmentKey caller.tenant h)) (hdefault : n.Vacant w h)
    (thread : Thread) (ownTimes times otherTimes : ReadTimes) :
    n.Unnoticed (n.retrieve thread h caller ownTimes times otherTimes) <->
      w.contains (fragmentKey caller.tenant h) = false ∧ w.contains h = false := by
  have hresident := (retrieveKey_readsResident hn thread (fragmentKey caller.tenant h) caller
    ownTimes).left
  have hread : n.retrieveKey thread (fragmentKey caller.tenant h) caller ownTimes =
      (.ok none, (n.taken (fragmentKey caller.tenant h)).opened thread) :=
    hown.retrieveKey hn htier thread ownTimes
  rw [hread] at hresident
  have htaken : ((n.taken (fragmentKey caller.tenant h)).opened thread).lowerTier =
      some (w.promote (fragmentKey caller.tenant h)).2 := lowerTier_taken_of_warm htier _
  have hlater : ((n.taken (fragmentKey caller.tenant h)).opened thread).Vacant
      (w.promote (fragmentKey caller.tenant h)).2 h :=
    { absent := hdefault.absent
      unheld := fun f hf => hdefault.unheld f (WarmTier.holds_of_promoted hf) }
  have hanswer : n.retrieve thread h caller ownTimes times otherTimes =
      (.ok none,
        (((n.taken (fragmentKey caller.tenant h)).opened thread).taken h).opened thread) := by
    unfold retrieve
    rw [if_neg hbare, if_pos ⟨hcaller, hnamed⟩, hread]
    exact hlater.retrieveDefault hresident htaken hcaller hadmin thread times otherTimes
  rw [hanswer]
  constructor
  · intro hsame
    have htiers := hsame.right.lowerTier
    have hlast : ((((n.taken (fragmentKey caller.tenant h)).opened thread).taken h).opened
        thread).lowerTier = some ((w.promote (fragmentKey caller.tenant h)).2.promote h).2 :=
      lowerTier_taken_of_warm htaken h
    simp only [hlast, htier, Option.some.injEq] at htiers
    have hindex := congrArg WarmTier.index htiers
    rw [(WarmTier.promote_of_not_holds hlater.unheld).right.left,
      (WarmTier.promote_of_not_holds hown.unheld).right.left] at hindex
    rw [WarmTier.contains_of_not_holds hown.unheld,
      WarmTier.contains_of_not_holds hdefault.unheld, decide_eq_false_iff_not,
      decide_eq_false_iff_not, ← hindex]
    constructor
    · intro hmem
      exact w.index.not_mem_erase _ ((Dict.mem_erase _ _ _).mp hmem).right
    · exact Dict.not_mem_erase _ h
  · rintro ⟨hfirst, hsecond⟩
    have hsame : (w.promote (fragmentKey caller.tenant h)).2 = w := by
      rw [WarmTier.promote_of_not_contains w hfirst]
    refine ⟨rfl, (unaffected_of_not_contains hn htier hown.absent hfirst thread).trans ?_⟩
    rw [hsame] at htaken
    exact unaffected_of_not_contains hresident htaken hdefault.absent hsecond thread

/-- A refused read answers nothing and has no effect exactly when every key it tries is
without trace. -/
theorem retrieve_unnoticed_iff (hn : n.ReadsResident) (htier : n.lowerTier = some w)
    (hw : w.Filed) (hvalid : validateTenantId caller.tenant = .ok ())
    (hadmin : hasAdminScope caller.scopes = false) {h : String}
    {ownTimes times : ReadTimes}
    (hrefused : forall read, read ∈ tried caller h ownTimes.read times.read ->
      n.Refused w caller read.1) (thread : Thread) (otherTimes : ReadTimes) :
    n.Unnoticed (n.retrieve thread h caller ownTimes times otherTimes) <->
      forall read, read ∈ tried caller h ownTimes.read times.read ->
        n.Traceless w thread read.1 read.2 := by
  have hcaller : caller.tenant ≠ "" := ((validateTenantId_eq_ok_iff _).mp hvalid).left
  have hplain := Fragment.keySeparator_not_mem_of_valid hvalid
  unfold tried at hrefused ⊢
  by_cases hseparator : keySeparator ∈ h.toList
  · rw [if_pos hseparator] at hrefused ⊢
    unfold retrieve
    rw [if_pos hseparator, List.forall_mem_singleton]
    exact retrieveKey_unnoticed_iff hn htier hw hcaller
      (hrefused (h, times.read) List.mem_cons_self) thread times
  · rw [if_neg hseparator] at hrefused ⊢
    have hvacant : forall tenant,
        (tenant = caller.tenant ∨ tenant = defaultTenant) ->
          n.Refused w caller (fragmentKey tenant h) -> n.Vacant w (fragmentKey tenant h) := by
      intro tenant htenant
      apply vacant_of_refused hn hw ?_ hseparator htenant
      rcases htenant with hmine | hdefault
      · rw [hmine]
        exact hplain
      · rw [hdefault]
        decide
    have hbare := hvacant defaultTenant (Or.inr rfl)
    rw [fragmentKey_defaultTenant] at hbare
    have htraceless : forall k now, n.Vacant w k ->
        (n.Traceless w thread k now <-> w.contains k = false) := by
      intro k now hk
      exact ⟨fun ht => ht.right hk.absent, fun hc => ⟨fun hmem => absurd hmem hk.absent,
        fun _ => hc⟩⟩
    split_ifs at hrefused ⊢ with hnamed
    · have hdefault := hbare (hrefused (h, times.read) (by simp))
      have hown := hvacant caller.tenant (Or.inl rfl)
        (hrefused (fragmentKey caller.tenant h, ownTimes.read) (by simp))
      rw [retrieve_of_vacant hn htier hseparator hcaller hnamed.right hadmin hown hdefault,
        List.forall_mem_cons, List.forall_mem_singleton, htraceless _ _ hown,
        htraceless _ _ hdefault]
    · have hdefault := hbare (hrefused (h, times.read) (by simp))
      rw [List.forall_mem_singleton]
      rw [← retrieveKey_unnoticed_iff hn htier hw hcaller
        (hrefused (h, times.read) (by simp)) thread times]
      unfold retrieve
      rw [if_neg hseparator, if_neg hnamed, hdefault.retrieveKey hn htier,
        hdefault.retrieveDefault hn htier hcaller hadmin]

end Warm

section Probing

attribute [local instance] InventoryHash.constant FragmentCodec.unreadable

def probed : Node InProcessBytes (WarmTier InProcessBytes) WeightedLRU :=
  (create (warmConfig publicOther)).call (storing acmeCopy)

theorem probed_unnoticed :
    probed.Unnoticed
      (probed.retrieve 0 "acme:h" (member "b") (readAt 1) (readAt 1) (readAt 1)) := by
  have htried : tried (member "b") "acme:h" (readAt 1).read (readAt 1).read =
      [("acme:h", 1)] := by decide +kernel
  have hresident : probed.fragments.get? "acme:h" = some acmeCopy := by decide +kernel
  have hfiled : exists w, probed.lowerTier = some w ∧ w.Filed :=
    ⟨_, rfl, (WarmTier.create_filed (fun _ => rfl) _ _).demoteLater publicOther none⟩
  rcases hfiled with ⟨w, htier, hw⟩
  refine (retrieve_unnoticed_iff (call_readsResident (create_readsResident _) _) htier hw rfl
    rfl ?_ 0 (readAt 1)).mpr ?_
  · rw [htried]
    intro read hread f hf
    rw [List.mem_singleton.mp hread] at hf
    rcases hf with hf | ⟨hk, _⟩
    · cases hresident.symm.trans hf
      decide
    · exact absurd (Dict.mem_of_get? hresident) hk
  · rw [htried]
    intro read hread
    rw [List.mem_singleton.mp hread]
    refine ⟨fun _ => Or.inr ⟨1, by decide +kernel, le_refl 1, fun own hown => ?_⟩,
      fun hk => absurd (Dict.mem_of_get? hresident) hk⟩
    cases hown

theorem probed_noticed :
    probed.fragments.get? "acme:h" = some acmeCopy ∧
      canRead acmeCopy.tenantId (member "b") = false ∧
      (probed.retrieve 0 "acme:h" (member "b") (readAt 2) (readAt 2) (readAt 2)).1 =
        .ok none ∧
      probed.table.lastAccess "acme:h" = some 1 ∧
      (probed.retrieve 0 "acme:h" (member "b") (readAt 2) (readAt 2)
        (readAt 2)).2.table.lastAccess "acme:h" = some 2 ∧
    ¬ "acme:h" ∈ (create (warmConfig acmeCopy)).fragments ∧
      "acme:h" ∈ ((create (warmConfig acmeCopy)).retrieve 0 "acme:h" (member "b") (readAt 1)
        (readAt 1) (readAt 1)).2.fragments := by
  decide +kernel

end Probing

end Node

end Serving
end Membrane
