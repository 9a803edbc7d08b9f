import Membrane.Serving.SilentReads

/-!
# Reads while nothing expires

On a node on which nothing is past its lifetime and whose lower tier holds nothing, a read
of a hash answers the copy that the node locates for the caller, and changes nothing but
the read caches.
-/

namespace Membrane
namespace Serving

open Foundation Data Store

theorem privileged_iff {caller : Caller} :
    Privileged caller <-> ¬ (caller.tenant ≠ "" ∧ hasAdminScope caller.scopes = false) := by
  unfold Privileged
  rw [not_and_or, not_not, Bool.not_eq_false]

theorem Privileged.canRead {caller : Caller} (h : Privileged caller) (tenant : String) :
    canRead tenant caller = true := by
  by_cases hcaller : caller.tenant = ""
  · exact if_pos hcaller
  · exact Bool.eq_true_of_not_eq_false (fun hread => h.not_refused tenant ⟨hcaller, hread⟩)

namespace Node

variable {sigma tau pi : Type}

def located (n : Node sigma tau pi) (h : String) (caller : Caller) : Option Fragment :=
  (n.locate h caller).bind n.fragments.get?

def ReadsOnly (n n' : Node sigma tau pi) : Prop :=
  n' = { n with table := { n.table with caches := n'.table.caches } }

namespace ReadsOnly

variable {n n' n'' : Node sigma tau pi}

theorem refl (n : Node sigma tau pi) : n.ReadsOnly n := rfl

theorem trans (h : n.ReadsOnly n') (h' : n'.ReadsOnly n'') : n.ReadsOnly n'' := by
  unfold ReadsOnly at h h' ⊢
  rw [h']
  rw [h]

theorem fragments (h : n.ReadsOnly n') : n'.fragments = n.fragments := by
  rw [h]
  rfl

theorem withLookup (n : Node sigma tau pi) (thread : Thread) (k : String) (now : Option ℚ) :
    n.ReadsOnly (n.withLookup thread k now) := by
  exact congrArg (fun table => { n with table := table })
    (n.table.lookup_cachesOnly thread k now)

end ReadsOnly

/-!
# The copy a caller sees
-/

section Seeing

variable [InventoryHash] {n : Node sigma tau pi} {h : String} {caller : Caller}

theorem Sound.tenant_eq (hn : n.Sound) {tenant : String} {g : Fragment}
    (hplain : ¬ keySeparator ∈ h.toList)
    (hg : n.fragments.get? (fragmentKey tenant h) = some g) :
    g.tenantId = tenant ∧ g.payloadHash = h :=
  fragmentKey_injective (hn.plain _ g hg) hplain (hn.bookkeeping.keyed _ g hg)

theorem Sound.tenant_eq_default (hn : n.Sound) {g : Fragment}
    (hplain : ¬ keySeparator ∈ h.toList) (hg : n.fragments.get? h = some g) :
    g.tenantId = defaultTenant ∧ g.payloadHash = h := by
  exact hn.tenant_eq hplain hg

theorem located_isSome (hn : n.Consistent) :
    (n.locate h caller).isSome = (n.located h caller).isSome := by
  unfold located
  cases hkey : n.locate h caller with
  | none => rfl
  | some k =>
    have hmem : k ∈ n.fragments := by
      unfold locate at hkey
      split_ifs at hkey with hnamed hresident hown hbare hrefused
      · cases hkey
        exact hresident
      · cases hkey
        exact hown.right.right
      · cases hkey
        exact hbare
      · exact mem_of_anyTenantCopy hn hkey
    rcases (Dict.mem_iff_exists_get? _ _).mp hmem with ⟨g, hg⟩
    rw [Option.bind_some, hg]
    rfl

end Seeing

/-!
# Reads on a steady node
-/

theorem readable_eq_none {n : Node sigma tau pi} {k : String} (hk : ¬ k ∈ n.fragments)
    (caller : Caller) :
    n.readable k caller = none := by
  unfold readable
  rw [(n.fragments.get?_eq_none_iff k).mpr hk]
  rfl

theorem readable_eq_get? {n : Node sigma tau pi} {k : String} {caller : Caller}
    (hread : forall f, n.fragments.get? k = some f ->
    canRead f.tenantId caller = true) : n.readable k caller = n.fragments.get? k := by
  unfold readable
  cases hf : n.fragments.get? k with
  | none => rfl
  | some f => rw [Option.filter_some, hread f hf, Bool.or_true, if_pos rfl]

def FreshAt (n : Node sigma tau pi) (now : ℚ) : Prop :=
  forall k, n.table.isExpired k now = false

theorem ReadsOnly.freshAt {n n' : Node sigma tau pi} {now : ℚ} (h : n.ReadsOnly n')
    (hfresh : n.FreshAt now) : n'.FreshAt now := by
  intro k
  rw [h]
  exact hfresh k

theorem freshAt_iff {n : Node sigma tau pi} (now : ℚ) :
    n.FreshAt now <-> n.table.expired now = [] := by
  unfold FragmentTable.expired
  rw [List.filter_eq_nil_iff]
  constructor
  · intro h k _hk
    rw [h k]
    exact Bool.false_ne_true
  · intro h k
    by_cases hk : k ∈ n.fragments
    · exact Bool.eq_false_iff.mpr (h k hk)
    · exact isExpired_of_not_mem hk now

section Steady

variable [InventoryHash] [LowerTier tau]

/-- The lower tier, which only evictions fill, holds nothing. -/
structure Settled (n : Node sigma tau pi) : Prop extends Sound n where
  lacks : forall k, n.Lacks k

variable {n n' : Node sigma tau pi} {now : ℚ}

theorem Settled.of_readsOnly (hn : n.Settled) (h : n.ReadsOnly n') (hsound : n'.Sound) :
    n'.Settled where
  toSound := hsound
  lacks k tier htier := by
    rw [h] at htier
    exact hn.lacks k tier htier

theorem Settled.withLookup (hn : n.Settled) (thread : Thread) (k : String) (time : Option ℚ) :
    (n.withLookup thread k time).Settled :=
  hn.of_readsOnly (ReadsOnly.withLookup n thread k time)
    (withLookup_sound hn.toSound thread k time)

theorem Settled.calm (hn : n.Settled) {times : ReadTimes} (hfresh : n.FreshAt times.read)
    (k : String) : n.Calm k times := by
  refine ⟨hfresh k, fun _ item hitem => ?_⟩
  unfold fetched at hitem
  cases htier : n.lowerTier with
  | none =>
    rw [htier] at hitem
    cases hitem
  | some tier =>
    rw [htier, Option.bind_some, hn.lacks k tier htier] at hitem
    cases hitem

/-- What a read replies, when only the read caches change. -/
structure Replies (n : Node sigma tau pi)
    (result : Except NodeError (Option Fragment) × Node sigma tau pi)
    (answer : Option Fragment) : Prop where
  answer : result.1 = .ok answer
  readsOnly : n.ReadsOnly result.2
  settled : result.2.Settled

theorem Replies.after (hreads : n.ReadsOnly n') {answer : Option Fragment}
    {result : Except NodeError (Option Fragment) × Node sigma tau pi}
    (h : n'.Replies result answer) : n.Replies result answer :=
  ⟨h.answer, hreads.trans h.readsOnly, h.settled⟩

variable [ContentStore sigma] [EvictionPolicy pi] {h : String} {caller : Caller}
variable {ownTimes times otherTimes : ReadTimes}

section

variable (hn : n.Settled)

include hn

section

variable (hfresh : n.FreshAt times.read) (thread : Thread) (k : String) (caller : Caller)

include hfresh

theorem Settled.retrieveKey :
    n.retrieveKey thread k caller times =
      (.ok (n.readable k caller), n.withLookup thread k (some times.read)) :=
  retrieveKey_of_staysLocal hn.toSound (hn.calm hfresh k) (Or.inr (hn.lacks k)) thread caller

theorem Settled.retrieveKey_replies :
    n.Replies (n.retrieveKey thread k caller times) (n.readable k caller) := by
  rw [hn.retrieveKey hfresh thread k caller]
  exact ⟨rfl, ReadsOnly.withLookup n thread k (some times.read),
    hn.withLookup thread k (some times.read)⟩

end

theorem Settled.retrieveOther_replies (hfresh : n.FreshAt otherTimes.read)
    (thread : Thread) (h : String) (caller : Caller) :
    n.Replies (n.retrieveOther thread h caller otherTimes)
      ((if caller.tenant ≠ "" ∧ hasAdminScope caller.scopes = false then none
        else n.table.anyTenantCopy h).bind n.fragments.get?) := by
  unfold retrieveOther
  by_cases hrefused : caller.tenant ≠ "" ∧ hasAdminScope caller.scopes = false
  · rw [if_pos hrefused, if_pos hrefused]
    exact ⟨rfl, ReadsOnly.refl n, hn⟩
  · rw [if_neg hrefused, if_neg hrefused]
    cases hother : n.table.anyTenantCopy h with
    | none => exact ⟨rfl, ReadsOnly.refl n, hn⟩
    | some other =>
      have hreplies := hn.retrieveKey_replies hfresh thread other caller
      rw [readable_eq_get? (fun f _ => (privileged_iff.mpr hrefused).canRead f.tenantId)]
        at hreplies
      exact hreplies

/-- Without a copy of the caller's own, the public copy is answered, and otherwise, to a
caller who may read every tenant's fragments, the first tenant's. -/
theorem Settled.retrieveDefault_replies (hfresh : n.FreshAt times.read)
    (hother : n.FreshAt otherTimes.read) (hplain : ¬ keySeparator ∈ h.toList)
    (thread : Thread) (caller : Caller) :
    n.Replies (n.retrieveDefault thread h caller times otherTimes)
      (((if h ∈ n.fragments then some h
        else if caller.tenant ≠ "" ∧ hasAdminScope caller.scopes = false then none
        else n.table.anyTenantCopy h)).bind n.fragments.get?) := by
  have hread := hn.retrieveKey_replies hfresh thread h caller
  by_cases hmem : h ∈ n.fragments
  · rcases (Dict.mem_iff_exists_get? _ _).mp hmem with ⟨g, hg⟩
    have hpublic : n.readable h caller = some g := by
      rw [readable_eq_get?, hg]
      intro f hf
      exact canRead_of_tenant (Or.inr (hn.toSound.tenant_eq_default hplain hf).left)
    rw [if_pos hmem, Option.bind_some, hg]
    unfold retrieveDefault
    rw [hn.retrieveKey hfresh, hpublic] at hread ⊢
    exact hread
  · rw [if_neg hmem]
    have hnone := readable_eq_none hmem caller
    have hreads := ReadsOnly.withLookup n thread h (some times.read)
    have hsettled := hn.withLookup thread h (some times.read)
    have htable : (n.withLookup thread h (some times.read)).table.tenantKeys =
        n.table.tenantKeys := by
      rw [hreads]
    unfold retrieveDefault
    rw [hn.retrieveKey hfresh, hnone]
    simp only [htable]
    by_cases hkeys : h ∈ n.table.tenantKeys
    · rw [if_pos hkeys]
      have hreplies := (hsettled.retrieveOther_replies (hreads.freshAt hother) thread h
        caller).after hreads
      rw [hreads] at hreplies ⊢
      exact hreplies
    · have habsent : n.table.anyTenantCopy h = none := by
        unfold FragmentTable.anyTenantCopy
        rw [Dict.getD, (Dict.get?_eq_none_iff _ h).mpr hkeys]
        rfl
      rw [if_neg hkeys, habsent, ite_self]
      exact ⟨rfl, hreads, hsettled⟩

theorem Settled.retrieve_replies (hown : n.FreshAt ownTimes.read)
    (hfresh : n.FreshAt times.read) (hother : n.FreshAt otherTimes.read)
    (hplain : ¬ keySeparator ∈ h.toList) (thread : Thread) (caller : Caller) :
    n.Replies (n.retrieve thread h caller ownTimes times otherTimes)
      (n.located h caller) := by
  unfold retrieve located locate
  rw [if_neg hplain, if_neg hplain]
  by_cases hnamed : caller.tenant ≠ "" ∧ caller.tenant ≠ defaultTenant
  · rw [if_pos hnamed]
    have hread := hn.retrieveKey_replies hown thread (fragmentKey caller.tenant h) caller
    by_cases hmem : fragmentKey caller.tenant h ∈ n.fragments
    · rcases (Dict.mem_iff_exists_get? _ _).mp hmem with ⟨g, hg⟩
      have hseen : n.readable (fragmentKey caller.tenant h) caller = some g := by
        rw [readable_eq_get?, hg]
        intro f hf
        exact canRead_of_tenant (Or.inl (hn.toSound.tenant_eq hplain hf).left)
      rw [if_pos ⟨hnamed.left, hnamed.right, hmem⟩, Option.bind_some, hg]
      rw [hn.retrieveKey hown, hseen] at hread ⊢
      exact hread
    · rw [if_neg (fun hall => hmem hall.right.right), hn.retrieveKey hown,
        readable_eq_none hmem caller]
      have hreads := ReadsOnly.withLookup n thread (fragmentKey caller.tenant h)
        (some ownTimes.read)
      have hreplies := ((hn.withLookup thread (fragmentKey caller.tenant h)
        (some ownTimes.read)).retrieveDefault_replies (hreads.freshAt hfresh)
        (hreads.freshAt hother) hplain thread caller).after hreads
      rw [hreads] at hreplies ⊢
      exact hreplies
  · rw [if_neg hnamed, if_neg (fun hall => hnamed ⟨hall.left, hall.right.left⟩)]
    exact hn.retrieveDefault_replies hfresh hother hplain thread caller

end

end Steady

end Node

end Serving
end Membrane
