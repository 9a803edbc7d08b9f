import Mathlib.Algebra.Order.Field.Rat
import Mathlib.Data.Rat.Lemmas
import Membrane.Data.Identity
import Membrane.Foundation.SplitLast

/-!
# Fragments and storage keys

A fragment is the metadata of one cached payload.  Times, lifetimes and scores
are exact rationals.  As for identities, a fragment carries the proof that it
passed the checks made at construction.

The default tenant's fragments are stored under their bare content hash and
every other tenant's under the tenant, a separator and the hash.
-/

namespace Membrane
namespace Data

open Foundation

inductive Consistency where
  | strong
  | quorum
  | eventual
  deriving DecidableEq

def defaultTenant : String := "public"

def keySeparator : Char := ':'

def fragmentKey (tenantId payloadHash : String) : String :=
  if tenantId = defaultTenant then payloadHash
  else tenantId ++ String.singleton keySeparator ++ payloadHash

def splitKey (key : String) : String × String :=
  match splitLast keySeparator key.toList with
  | some (tenant, payloadHash) =>
    (String.ofList tenant, String.ofList payloadHash)
  | none => (defaultTenant, key)

/-!
# Tenant ids
-/

def forbiddenTenantChars : List Char :=
  [' ', ':', '/', '\\', '"', '\n', '\t', '\r']

def validateTenantId (tenantId : String) : Except String Unit := do
  check (tenantId ≠ "") "tenant_id must be a non-empty string"
  check (tenantId.length ≤ 128)
    ("tenant_id must be <= 128 chars, got " ++ toString tenantId.length)
  check (¬ tenantId.toList.any (fun ch => ch ∈ forbiddenTenantChars))
    ("tenant_id contains forbidden character in " ++ tenantId)

theorem validateTenantId_eq_ok_iff (tenantId : String) :
    validateTenantId tenantId = .ok () <->
      tenantId ≠ "" ∧ tenantId.length ≤ 128 ∧
        forall ch, ch ∈ tenantId.toList -> ¬ ch ∈ forbiddenTenantChars := by
  unfold validateTenantId
  simp only [bind_unit_eq_ok_iff, check_eq_ok_iff, List.any_eq_true, decide_eq_true_eq,
    not_exists, not_and]

/-!
# Keys determine tenant and hash

The formatting alone does not separate tenants: a hash of the default tenant
may itself contain the separator.
-/

theorem fragmentKey_defaultTenant (payloadHash : String) :
    fragmentKey defaultTenant payloadHash = payloadHash := if_pos rfl

variable {tenantId : String}

theorem fragmentKey_toList (h : tenantId ≠ defaultTenant) (payloadHash : String) :
    (fragmentKey tenantId payloadHash).toList =
      tenantId.toList ++ keySeparator :: payloadHash.toList := by
  unfold fragmentKey
  rw [if_neg h, String.toList_append, String.toList_append, List.append_assoc]
  rfl

theorem splitKey_fragmentKey {payloadHash : String}
    (h : ¬ keySeparator ∈ payloadHash.toList) (tenantId : String) :
    splitKey (fragmentKey tenantId payloadHash) = (tenantId, payloadHash) := by
  unfold splitKey
  by_cases htenant : tenantId = defaultTenant
  · rw [htenant, fragmentKey_defaultTenant,
      (splitLast_eq_none_iff keySeparator _).mpr h]
  · rw [fragmentKey_toList htenant, splitLast_append_cons _ _ h]
    simp only [String.ofList_toList]

theorem keySeparator_not_mem_splitKey (key : String) :
    ¬ keySeparator ∈ (splitKey key).2.toList := by
  unfold splitKey
  cases h : splitLast keySeparator key.toList with
  | none => exact (splitLast_eq_none_iff _ _).mp h
  | some parts =>
    rcases parts with ⟨tenant, payloadHash⟩
    rw [String.toList_ofList]
    exact (splitLast_some h).right

theorem splitKey_fragmentKey_iff (tenantId payloadHash : String) :
    splitKey (fragmentKey tenantId payloadHash) = (tenantId, payloadHash) <->
      ¬ keySeparator ∈ payloadHash.toList := by
  constructor
  · intro h
    have hfree := keySeparator_not_mem_splitKey (fragmentKey tenantId payloadHash)
    rw [h] at hfree
    exact hfree
  · intro h
    exact splitKey_fragmentKey h tenantId

theorem fragmentKey_injective {s t g h : String}
    (hg : ¬ keySeparator ∈ g.toList) (hh : ¬ keySeparator ∈ h.toList)
    (hkey : fragmentKey s g = fragmentKey t h) : s = t ∧ g = h := by
  have hsplit : (s, g) = (t, h) := by
    rw [← splitKey_fragmentKey hg s, ← splitKey_fragmentKey hh t, hkey]
  exact ⟨congrArg Prod.fst hsplit, congrArg Prod.snd hsplit⟩

/-- Only the default tenant's key is the bare hash. -/
theorem fragmentKey_ne_payloadHash (h : tenantId ≠ defaultTenant) (payloadHash : String) :
    fragmentKey tenantId payloadHash ≠ payloadHash := by
  intro heq
  have hlist := congrArg (fun s => s.toList.length) heq
  simp only [fragmentKey_toList h, List.length_append, List.length_cons] at hlist
  omega

/-!
# Fragments
-/

structure FragmentFields where
  identity : PayloadIdentity
  payloadRef : Option String
  payloadSize : Int
  ttl : ℚ
  reuseScore : ℚ
  versionId : Int
  consistency : Consistency
  hlc : Int
  fingerprintCompat : String
  tenantId : String
  deriving DecidableEq

/-- The empty string, or a digest of 64 lower-case hexadecimal digits. -/
def ValidFingerprint (fingerprint : String) : Prop :=
  fingerprint = "" ∨
    (fingerprint.length = 64 ∧
      fingerprint.toList.all (fun ch => ch ∈ "0123456789abcdef".toList))

instance (fingerprint : String) : Decidable (ValidFingerprint fingerprint) :=
  inferInstanceAs (Decidable (_ ∨ (_ ∧ _ = true)))

/-- The checks made on the fields of a new fragment, in their order. -/
def FragmentFields.postInit (fields : FragmentFields) : Except String Unit := do
  check (0 ≤ fields.payloadSize)
    ("Fragment payload_size must be >= 0, got " ++ toString fields.payloadSize)
  check (0 ≤ fields.ttl) ("Fragment ttl must be >= 0, got " ++ toString fields.ttl)
  check (0 ≤ fields.reuseScore ∧ fields.reuseScore ≤ 1)
    ("Fragment reuse_score must be in [0, 1], got " ++ toString fields.reuseScore)
  check (1 ≤ fields.versionId)
    ("Fragment version_id must be >= 1, got " ++ toString fields.versionId)
  validateTenantId fields.tenantId
  check (0 ≤ fields.hlc) ("Fragment hlc must be >= 0, got " ++ toString fields.hlc)
  check (ValidFingerprint fields.fingerprintCompat)
    ("fingerprint_compat must be the empty string or a 64-char hex digest, got "
      ++ fields.fingerprintCompat)

structure Fragment extends FragmentFields where
  accepted : toFragmentFields.postInit = .ok ()
  deriving DecidableEq

def FragmentFields.construct (fields : FragmentFields) : Except String Fragment :=
  match h : fields.postInit with
  | .error message => .error message
  | .ok () => .ok { toFragmentFields := fields, accepted := h }

theorem FragmentFields.postInit_eq_ok_iff (fields : FragmentFields) :
    fields.postInit = .ok () <->
      0 ≤ fields.payloadSize ∧ 0 ≤ fields.ttl ∧
        (0 ≤ fields.reuseScore ∧ fields.reuseScore ≤ 1) ∧
        1 ≤ fields.versionId ∧
        validateTenantId fields.tenantId = .ok () ∧
        0 ≤ fields.hlc ∧ ValidFingerprint fields.fingerprintCompat := by
  unfold FragmentFields.postInit
  simp only [bind_unit_eq_ok_iff, check_eq_ok_iff]

namespace Fragment

variable (f : Fragment)

theorem payloadSize_nonneg : 0 ≤ f.payloadSize :=
  ((FragmentFields.postInit_eq_ok_iff _).mp f.accepted).left

theorem tenantId_valid : validateTenantId f.tenantId = .ok () :=
  ((FragmentFields.postInit_eq_ok_iff _).mp f.accepted).right.right.right.right.left

theorem one_le_versionId : 1 ≤ f.versionId :=
  ((FragmentFields.postInit_eq_ok_iff _).mp f.accepted).right.right.right.left

def payloadHash : String := f.identity.payloadHash

def key : String := fragmentKey f.tenantId f.payloadHash

theorem key_ne_empty : f.key ≠ "" := by
  have hhash : f.payloadHash ≠ "" :=
    ((IdentityFields.postInit_eq_ok_iff _).mp f.identity.accepted).left
  unfold key fragmentKey
  split
  · exact hhash
  · intro h
    simp [hhash] at h

theorem keySeparator_not_mem_of_valid (h : validateTenantId tenantId = .ok ()) :
    ¬ keySeparator ∈ tenantId.toList :=
  fun hmem => ((validateTenantId_eq_ok_iff _).mp h).right.right _ hmem (by decide)

theorem tenant_of_key {f : Fragment} {payloadHash : String}
    (htenant : ¬ keySeparator ∈ tenantId.toList) (hplain : ¬ keySeparator ∈ payloadHash.toList)
    (h : f.key = fragmentKey tenantId payloadHash) :
    f.tenantId = tenantId ∨ f.tenantId = defaultTenant := by
  by_cases hf : f.tenantId = defaultTenant
  · exact Or.inr hf
  left
  have hlist := congrArg String.toList h
  unfold key at hlist
  rw [fragmentKey_toList hf] at hlist
  by_cases hdefault : tenantId = defaultTenant
  · rw [hdefault] at hlist
    exact absurd (hlist ▸ List.mem_append_right _ List.mem_cons_self) hplain
  · rw [fragmentKey_toList hdefault] at hlist
    have hparts := (List.append_cons_inj_of_notMem htenant hplain).mp hlist.symm
    exact String.toList_inj.mp hparts.left.symm

def withConsistency (level : Consistency) : Fragment :=
  { toFragmentFields := { f.toFragmentFields with consistency := level }
    accepted := f.accepted }

def withTenant (tenantId : String) : Except String Fragment :=
  let fields := { f.toFragmentFields with tenantId := tenantId }
  if haccepted : fields.postInit = .ok () then
    .ok { toFragmentFields := fields, accepted := haccepted }
  else fields.postInit.bind (fun _ => .ok f)

def withFingerprint {fingerprint : String} (h : ValidFingerprint fingerprint) : Fragment :=
  { toFragmentFields := { f.toFragmentFields with fingerprintCompat := fingerprint }
    accepted := by
      rcases (FragmentFields.postInit_eq_ok_iff _).mp f.accepted with
        ⟨hsize, httl, hreuse, hversion, htenant, hhlc, _⟩
      exact (FragmentFields.postInit_eq_ok_iff _).mpr
        ⟨hsize, httl, hreuse, hversion, htenant, hhlc, h⟩ }

def rebase (offset : Nat) : Fragment :=
  { toFragmentFields := { f.toFragmentFields with identity := f.identity.rebase offset }
    accepted := f.accepted }

/-- A fragment of a given tenant, payload and consistency that lives for one
time unit. -/
def plain (tenantId payloadHash : String) (payloadRef : Option String)
    (payloadSize : Nat) (consistency : Consistency)
    (htenant : validateTenantId tenantId = .ok ())
    (hhash : (payloadHash == "") = false) : Fragment where
  identity := PayloadIdentity.plain payloadHash hhash
  payloadRef := payloadRef
  payloadSize := payloadSize
  ttl := 1
  reuseScore := 0
  versionId := 1
  consistency := consistency
  hlc := 0
  fingerprintCompat := ""
  tenantId := tenantId
  accepted := (FragmentFields.postInit_eq_ok_iff _).mpr
    ⟨Int.natCast_nonneg payloadSize, zero_le_one, ⟨le_refl _, zero_le_one⟩, le_refl _,
      htenant, le_refl _, Or.inl rfl⟩

def window (tenantId payloadHash modelId : String) (start extra : Nat)
    (htenant : validateTenantId tenantId = .ok ())
    (hhash : (payloadHash == "") = false) : Fragment where
  identity := PayloadIdentity.window payloadHash modelId start extra hhash
  payloadRef := none
  payloadSize := 10
  ttl := 1
  reuseScore := 0
  versionId := 1
  consistency := .strong
  hlc := 0
  fingerprintCompat := ""
  tenantId := tenantId
  accepted := (FragmentFields.postInit_eq_ok_iff _).mpr
    ⟨Int.natCast_nonneg 10, zero_le_one, ⟨le_refl _, zero_le_one⟩, le_refl _, htenant,
      le_refl _, Or.inl rfl⟩

end Fragment

/-!
# Fragments of small runs
-/

theorem validateTenantId_public : validateTenantId "public" = .ok () := rfl

theorem validateTenantId_acme : validateTenantId "acme" = .ok () := rfl

theorem validateTenantId_a : validateTenantId "a" = .ok () := rfl

theorem nonempty_a : ("a" == "") = false := rfl

theorem nonempty_b : ("b" == "") = false := rfl

def firstCopy : Fragment :=
  Fragment.plain "a" "h" (some "r") 60 .strong rfl rfl

def secondCopy : Fragment :=
  Fragment.plain "b" "h" (some "r") 60 .strong rfl rfl

def acmeCopy : Fragment :=
  Fragment.plain "acme" "h" none 60 .strong rfl rfl

def publicFragment : Fragment :=
  Fragment.plain "public" "acme:h" none 10 .strong rfl rfl

def publicCopy : Fragment :=
  Fragment.plain "public" "h" none 10 .strong rfl rfl

def publicOther : Fragment :=
  Fragment.plain "public" "g" none 10 .strong rfl rfl

def acmeWindow : Fragment :=
  Fragment.window "acme" "h" "model" 0 1 rfl rfl

/-!
# Windows of a small prompt
-/

def firstWindow : Fragment :=
  Fragment.window "public" "a" "model" 0 0 rfl rfl

def otherWindow : Fragment :=
  Fragment.window "b" "a" "model" 0 0 rfl rfl

def strayWindow : Fragment :=
  Fragment.window "b" "h" "model" 0 0 rfl rfl

end Data
end Membrane
