import Mathlib.Data.List.Sort
import Mathlib.Data.Finset.Basic
import Mathlib.Data.Prod.Lex
import Membrane.Foundation.Dict
import Membrane.Data.Fragment

/-!
# Store policies

The decisions a node consults when it stores or evicts a fragment: the tenant
rules, the admission gate, the quota of a tenant, the tier of a fragment and
the order in which resident fragments are evicted.
-/

namespace Membrane
namespace Store

open Foundation Data

/-!
# Tenant rules
-/

def systemTenant : String := "public"

structure Caller where
  tenant : String
  scopes : Finset String
  deriving DecidableEq

def Caller.internal : Caller :=
  { tenant := "", scopes := ∅ }

def hasAdminScope (scopes : Finset String) : Bool :=
  decide ("admin" ∈ scopes)

inductive TenantAccess where
  | read
  | write
  deriving DecidableEq

structure TenantScopeError where
  access : TenantAccess
  callerTenant : String
  fragmentTenant : String
  deriving DecidableEq

/-- The rule for reads and writes: the caller's own tenant, and the system
tenant where it is open to everyone. -/
def canAccessTenant (callerTenant fragmentTenant : String) (publicOpen : Bool) : Bool :=
  if fragmentTenant = "" ∨ callerTenant = "" then false
  else decide (fragmentTenant = callerTenant) ||
    (publicOpen && decide (fragmentTenant = systemTenant))

def canReadTenant (callerTenant fragmentTenant : String) : Bool :=
  canAccessTenant callerTenant fragmentTenant true

def canWriteTenant (callerTenant fragmentTenant : String) : Bool :=
  canAccessTenant callerTenant fragmentTenant false

def authorizeWrite (caller : Caller) (fragmentTenant : String) :
    Except TenantScopeError Unit :=
  if hasAdminScope caller.scopes then .ok ()
  else if canWriteTenant caller.tenant fragmentTenant then .ok ()
  else .error
    { access := .write, callerTenant := caller.tenant, fragmentTenant := fragmentTenant }

def authorizeRead (caller : Caller) (fragmentTenant : String) :
    Except TenantScopeError Unit :=
  if hasAdminScope caller.scopes then .ok ()
  else if canReadTenant caller.tenant fragmentTenant then .ok ()
  else .error
    { access := .read, callerTenant := caller.tenant, fragmentTenant := fragmentTenant }

def checkWrite (fragmentTenant : String) (caller : Caller) :
    Except TenantScopeError Unit :=
  if caller.tenant = "" then .ok () else authorizeWrite caller fragmentTenant

def canRead (fragmentTenant : String) (caller : Caller) : Bool :=
  if caller.tenant = "" then true
  else (authorizeRead caller fragmentTenant).toBool

/-!
# Admission, quotas and tiers
-/

structure AdmissionPolicy where
  minReuseScore : ℚ
  enabled : Bool

def AdmissionPolicy.shouldAdmit (p : AdmissionPolicy) (reuseScore : ℚ) : Bool :=
  if p.enabled then decide (p.minReuseScore ≤ reuseScore) else true

structure TenantQuota where
  tenantId : String
  maxBytes : Option Int
  maxEntries : Option Int
  usedBytes : Int
  usedEntries : Int
  deriving DecidableEq

namespace TenantQuota

variable (q : TenantQuota)

def charge (payloadSize : Int) : TenantQuota :=
  { q with
    usedBytes := q.usedBytes + payloadSize
    usedEntries := q.usedEntries + 1 }

def admitPayload (payloadSize : Int) : Bool × TenantQuota :=
  if q.maxBytes.any (fun cap => cap < q.usedBytes + payloadSize) then (false, q)
  else if q.maxEntries.any (fun cap => cap ≤ q.usedEntries) then (false, q)
  else (true, q.charge payloadSize)

theorem admitPayload_cases (payloadSize : Int) :
    q.admitPayload payloadSize = (false, q) ∨
      q.admitPayload payloadSize = (true, q.charge payloadSize) := by
  unfold admitPayload
  split_ifs
  · exact Or.inl rfl
  · exact Or.inl rfl
  · exact Or.inr rfl

end TenantQuota

inductive Tier where
  | hot
  | warm
  | cold
  | archival
  deriving DecidableEq

structure TierPolicy where
  hotThreshold : ℚ
  warmThreshold : ℚ
  archiveThreshold : ℚ

def selectTier (p : TierPolicy) (f : Fragment) : Tier :=
  if p.hotThreshold ≤ f.reuseScore then .hot
  else if p.warmThreshold ≤ f.reuseScore then .warm
  else if p.archiveThreshold ≤ f.reuseScore then .cold
  else .archival

/-!
# Eviction order

A policy only orders the candidates; the node removes them in that order until
enough bytes are free.  The protocol promises that the order names every
candidate once.
-/

class EvictionPolicy (pi : Type) where
  order : pi -> List (String × Fragment) -> Dict String ℚ -> ℚ -> List String
  order_perm : forall p candidates accessTimes now,
    (order p candidates accessTimes now).Perm (candidates.map Prod.fst)

def evictionReuseEpsilon : ℚ := 1 / 100

structure WeightedLRU where
  deriving DecidableEq

namespace WeightedLRU

def score (accessTimes : Dict String ℚ) (now : ℚ) (item : String × Fragment) : ℚ :=
  accessTimes.getD item.1 now / (item.2.reuseScore + evictionReuseEpsilon)

def order (candidates : List (String × Fragment)) (accessTimes : Dict String ℚ)
    (now : ℚ) : List String :=
  (candidates.insertionSort
    (fun a b => score accessTimes now a ≤ score accessTimes now b)).map Prod.fst

instance : EvictionPolicy WeightedLRU where
  order _ := order
  order_perm _ candidates _ _ := (List.perm_insertionSort _ candidates).map Prod.fst

end WeightedLRU

end Store
end Membrane
