import Membrane.Serving.Runs

/-!
# Storage keys and tenants

The table keeps one fragment per storage key, and a store of a resident key only
refreshes it.  Two tenants are therefore separated exactly as far as their keys
are.  An identity accepts any non-empty hash, also one that contains the
separator of the keys.
-/

namespace Membrane
namespace Serving

open Foundation Data Store

namespace Node

section Separation

variable {sigma tau pi : Type}
variable [InventoryHash] [ContentStore sigma] [LowerTier tau] [EvictionPolicy pi]

/-- A store reports success while the fragment under its key stays the one that
was resident before. -/
structure Absorbed (n : Node sigma tau pi) (f resident : Fragment) (isPrimary : Bool)
    (caller : Caller) (now evictTime : ℚ) : Prop where
  before : n.fragments.get? f.key = some resident
  reported : (n.store f isPrimary caller now evictTime).1 = .ok true
  unchanged :
    (n.store f isPrimary caller now evictTime).2.fragments.get? f.key = some resident

theorem Absorbed.key_eq {n : Node sigma tau pi} (hn : n.Consistent)
    {f resident : Fragment} {isPrimary : Bool} {caller : Caller} {now evictTime : ℚ}
    (h : n.Absorbed f resident isPrimary caller now evictTime) :
    f.key = resident.key :=
  (hn.bookkeeping.keyed f.key resident h.before).symm

theorem keys_separate_tenants_iff (s t : String) (i j : PayloadIdentity) :
    ((fragmentKey s i.payloadHash = fragmentKey t j.payloadHash ->
        s = t ∧ i.payloadHash = j.payloadHash) ∧
      splitKey (fragmentKey s i.payloadHash) = (s, i.payloadHash) ∧
      splitKey (fragmentKey t j.payloadHash) = (t, j.payloadHash) ∧
      forall (n : Node sigma tau pi) (f resident : Fragment) isPrimary caller now evictTime,
        n.Consistent -> f.tenantId = s -> f.identity = i ->
        resident.tenantId = t -> resident.identity = j ->
        n.Absorbed f resident isPrimary caller now evictTime ->
        f.tenantId = resident.tenantId) <->
      ¬ keySeparator ∈ i.payloadHash.toList ∧ ¬ keySeparator ∈ j.payloadHash.toList := by
  constructor
  · rintro ⟨_, hfirst, hsecond, _⟩
    exact ⟨(splitKey_fragmentKey_iff s i.payloadHash).mp hfirst,
      (splitKey_fragmentKey_iff t j.payloadHash).mp hsecond⟩
  · rintro ⟨hi, hj⟩
    refine ⟨fragmentKey_injective hi hj, splitKey_fragmentKey hi s,
      splitKey_fragmentKey hj t, ?_⟩
    intro n f resident isPrimary caller now evictTime hn _ hfi _ hrj habsorbed
    have hkey : fragmentKey f.tenantId f.identity.payloadHash =
        fragmentKey resident.tenantId resident.identity.payloadHash :=
      habsorbed.key_eq hn
    rw [hfi, hrj] at hkey
    exact (fragmentKey_injective hi hj hkey).left

end Separation

/-!
# A collision
-/

section Collision

attribute [local instance] InventoryHash.constant

def collisionNode : Node InProcessBytes Empty WeightedLRU :=
  (create (Config.default "n0" 100)).mutate
    (.store publicFragment true Caller.internal 1 1)

theorem acmeCopy_absorbed :
    fragmentKey "public" "acme:h" = fragmentKey "acme" "h" ∧
      splitKey (fragmentKey "public" "acme:h") = ("acme", "h") ∧
      collisionNode.Absorbed acmeCopy publicFragment true Caller.internal 2 2 := by
  refine ⟨by decide, by decide, ?_⟩
  exact
    { before := by decide
      reported := by decide
      unchanged := by decide }

end Collision

end Node

end Serving
end Membrane
