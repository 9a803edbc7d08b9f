import Mathlib.Tactic.Linarith
import Membrane.Serving.KeptByCalls

/-!
# Recording an access

A read that was answered is recorded for the eviction: the hit raises the reuse score of a
copy and the frequency of its key.  The copy is looked up again from the bare hash, without
the caller.
-/

namespace Membrane
namespace Serving

open Foundation Data Store

/-- The moving average of the hits, with a blending factor of 1/10 and a decay of 1/20. -/
def hitScore (current : ℚ) : ℚ :=
  1 / 10 * max 0 (1 - 1 / 20) + (1 - 1 / 10) * current

theorem hitScore_mem {current : ℚ} (h : 0 ≤ current ∧ current ≤ 1) :
    0 ≤ hitScore current ∧ hitScore current ≤ 1 := by
  unfold hitScore
  rw [max_eq_right (by norm_num)]
  constructor
  · linarith
  · linarith

def Fragment.hit (f : Fragment) : Fragment where
  toFragmentFields := { f.toFragmentFields with reuseScore := hitScore f.reuseScore }
  accepted := by
    rcases (FragmentFields.postInit_eq_ok_iff _).mp f.accepted with ⟨hsize, httl, hreuse, hrest⟩
    exact (FragmentFields.postInit_eq_ok_iff _).mpr ⟨hsize, httl, hitScore_mem hreuse, hrest⟩

namespace Node

variable {sigma tau pi : Type}

def recordHit (n : Node sigma tau pi) (contentHash : String) (touched : List String) :
    Node sigma tau pi × List String :=
  match n.locate contentHash Caller.internal with
  | none => (n, touched)
  | some key =>
    match n.fragments.get? key with
    | none => (n, touched)
    | some f =>
      ({ n with table := { n.table with fragments := n.fragments.set key (Fragment.hit f) } },
        key :: touched)

def CreditsOnly (n : Node sigma tau pi) (contentHash : String) (touched : List String)
    (f : Fragment) : Prop :=
  forall k, (n.recordHit contentHash touched).2.count k =
      touched.count k + (if k = f.key then 1 else 0) ∧
    (n.recordHit contentHash touched).1.fragments.get? k =
      if k = f.key then some (Fragment.hit f) else n.fragments.get? k

variable {n : Node sigma tau pi} {f : Fragment} {h : String}

theorem creditsOnly_iff_locate (hf : n.fragments.get? f.key = some f) (touched : List String) :
    n.CreditsOnly h touched f <-> n.locate h Caller.internal = some f.key := by
  constructor
  · intro hcredits
    have hcount := (hcredits f.key).left
    rw [if_pos rfl] at hcount
    unfold recordHit at hcount
    split at hcount
    · exact absurd hcount (Nat.ne_of_lt (Nat.lt_succ_self _))
    · rename_i key hlocate
      split at hcount
      · exact absurd hcount (Nat.ne_of_lt (Nat.lt_succ_self _))
      · rw [List.count_cons] at hcount
        split_ifs at hcount with hkey
        · rw [hlocate, eq_of_beq hkey]
        · omega
  · intro hlocate k
    unfold recordHit
    simp only [hlocate, hf]
    constructor
    · rw [List.count_cons]
      simp only [beq_iff_eq, @eq_comm _ f.key]
    · exact Dict.get?_set _ _ _ _

theorem locate_internal_iff (hf : f.key ∈ n.fragments) :
    n.locate h Caller.internal = some f.key <->
      f.key = h ∨ ¬ keySeparator ∈ h.toList ∧ ¬ h ∈ n.fragments ∧
        n.table.anyTenantCopy h = some f.key := by
  unfold locate
  by_cases hkey : f.key = h
  · subst hkey
    simp [hf, Caller.internal]
  · by_cases hh : h ∈ n.fragments
    · simp [hh, hkey, Ne.symm hkey, Caller.internal]
    · by_cases hseparator : keySeparator ∈ h.toList
      · simp [hh, hkey, hseparator]
      · simp [hh, hkey, hseparator, Caller.internal]

theorem foundResident_none (n : Node sigma tau pi) : FoundResident (.ok none, n) := by
  intro f hf
  cases hf

variable [InventoryHash] [ContentStore sigma] [LowerTier tau] [EvictionPolicy pi]
variable {caller : Caller} {thread : Thread} {ownTimes times otherTimes : ReadTimes}

theorem retrieve_foundResident (hn : n.ReadsResident) :
    FoundResident (n.retrieve thread h caller ownTimes times otherTimes) :=
  (retrieve_of_reads (fun read => read.2.ReadsResident ∧ FoundResident read)
    (fun r _ hr => retrieveKey_readsResident hr.left thread r.key caller r.times)
    ⟨hn, foundResident_none n⟩).right.right

/-- A recorded read credits the fragment that was read exactly when the bare hash leads to
it. -/
theorem recordHit_credits_read_iff (hn : n.ReadsResident)
    (hread : (n.retrieve thread h caller ownTimes times otherTimes).1 = .ok (some f))
    (touched : List String) :
    (n.retrieve thread h caller ownTimes times otherTimes).2.CreditsOnly h touched f <->
      f.key = h ∨ ¬ keySeparator ∈ h.toList ∧
        ¬ h ∈ (n.retrieve thread h caller ownTimes times otherTimes).2.fragments ∧
        (n.retrieve thread h caller ownTimes times otherTimes).2.table.anyTenantCopy h =
          some f.key := by
  have hf := retrieve_foundResident hn f hread
  rw [creditsOnly_iff_locate hf, locate_internal_iff (Dict.mem_of_get? hf)]

/-!
# Isolation
-/

theorem retrieveKey_canRead (n : Node sigma tau pi) (hcaller : caller.tenant ≠ "")
    (hread : (n.retrieveKey thread h caller times).1 = .ok (some f)) :
    canRead f.tenantId caller = true := by
  have hkey : forall m : Node sigma tau pi,
      (m.readKey thread h caller times.read).1 = .ok (some f) ->
        canRead f.tenantId caller = true := by
    intro m hm
    unfold readKey at hm
    rcases hentry : (m.table.lookup thread h (some times.read)).1 with _ | ⟨found, expires⟩
    · rw [hentry] at hm
      cases hm
    · rw [hentry] at hm
      simp only [answerRead] at hm
      split_ifs at hm with hrefused
      · cases hm
      · split at hm <;> cases hm
      · cases hm
      · cases hm
        exact Bool.of_not_eq_false (fun hfalse => hrefused ⟨hcaller, hfalse⟩)
  unfold retrieveKey at hread
  split_ifs at hread
  · split at hread
    · cases hread
    · exact hkey _ hread
  · exact hkey n hread

/-- In every run a caller with a tenant and without the admin scope is answered with its own
and public fragments only, and these are resident when they are answered. -/
theorem run_reads_isolated (hcaller : caller.tenant ≠ "")
    (hadmin : hasAdminScope caller.scopes = false) (config : Config sigma tau pi)
    (calls : List Call) :
    Throughout call (fun n => forall thread h ownTimes times otherTimes f,
      (n.retrieve thread h caller ownTimes times otherTimes).1 = .ok (some f) ->
        (f.tenantId = caller.tenant ∨ f.tenantId = defaultTenant) ∧
          (n.retrieve thread h caller ownTimes times otherTimes).2.fragments.get? f.key =
            some f) (create config) calls := by
  intro completed hleading thread h ownTimes times otherTimes f hread
  have hresident := throughout_of_step ReadsResident (fun _ c hm => call_readsResident hm c)
    (create_readsResident config) calls completed hleading
  have hcan := (retrieve_of_reads
    (fun read => forall f, read.1 = .ok (some f) -> canRead f.tenantId caller = true)
    (fun r _ _ _ => retrieveKey_canRead r.node hcaller) (by rintro _ ⟨⟩)).right f hread
  exact ⟨canRead_tenant hcaller hadmin hcan, retrieve_foundResident hresident f hread⟩

end Node

section Sample

attribute [local instance] InventoryHash.constant

def copiesOf (stored : List Fragment) : Node InProcessBytes Empty WeightedLRU :=
  run Node.call (Node.create (Config.default "node" 200))
    (stored.map (fun f => .mutation (.store f true Caller.internal 0 0)))

theorem single_copy_credited :
    ((copiesOf [acmeCopy]).retrieve 0 "h" ⟨"acme", ∅⟩ (readAt 1) (readAt 1)
      (readAt 1)).2.CreditsOnly "h" [] acmeCopy := by
  have hn : (copiesOf [acmeCopy]).ReadsResident :=
    Node.call_readsResident (Node.create_readsResident (Config.default "node" 200))
      (.mutation (.store acmeCopy true Caller.internal 0 0))
  apply (Node.recordHit_credits_read_iff hn _ []).mpr
  · exact Or.inr (by decide +kernel)
  · decide +kernel

/-- The tenant reads its own copy, and the default tenant's is credited. -/
theorem other_copy_credited :
    ((copiesOf [acmeCopy, publicCopy]).retrieve 0 "h" ⟨"acme", ∅⟩ (readAt 1) (readAt 1)
        (readAt 1)).1 = .ok (some acmeCopy) ∧
      ¬ ((copiesOf [acmeCopy, publicCopy]).retrieve 0 "h" ⟨"acme", ∅⟩ (readAt 1) (readAt 1)
        (readAt 1)).2.CreditsOnly "h" [] acmeCopy := by
  refine ⟨by decide +kernel, fun h => absurd (h "h").left ?_⟩
  decide +kernel

theorem acme_reads_isolated :
    ((copiesOf [acmeCopy, publicCopy]).retrieve 0 "h" ⟨"acme", ∅⟩ (readAt 1) (readAt 1)
        (readAt 1)).1 = .ok (some acmeCopy) ∧
      (acmeCopy.tenantId = "acme" ∨ acmeCopy.tenantId = defaultTenant) := by
  have hread : ((copiesOf [acmeCopy, publicCopy]).retrieve 0 "h" ⟨"acme", ∅⟩ (readAt 1)
      (readAt 1) (readAt 1)).1 = .ok (some acmeCopy) := by decide +kernel
  exact ⟨hread, (Node.run_reads_isolated (by decide) (by decide) _ _ _ (List.prefix_refl _)
    0 "h" (readAt 1) (readAt 1) (readAt 1) acmeCopy hread).left⟩

end Sample

end Serving
end Membrane
