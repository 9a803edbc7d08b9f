import Membrane.Data.Fragment
import Membrane.Data.IdentityDict

/-!
# Fragments as dictionaries

The wire form of a fragment is a JSON object with a schema version, the
dictionary of its identity and its other fields.  Reading one checks the
version, then the identity, then three of the fields, and then converts the
fields one by one.  A missing field is reported as a schema error, except that
a missing tenant is replaced by the default one.
-/

namespace Membrane
namespace Data

open Foundation

namespace Consistency

def name : Consistency -> String
  | strong => "strong"
  | quorum => "quorum"
  | eventual => "eventual"

def ofName? (s : String) : Option Consistency :=
  [strong, quorum, eventual].find? (fun level => level.name = s)

theorem ofName?_name (level : Consistency) : ofName? level.name = some level := by
  cases level <;> rfl

end Consistency

inductive WireError where
  | schemaError (message : String)
  | raised (error : PyError)
  deriving DecidableEq

def missingField (k : String) : WireError :=
  .schemaError ("missing required field: " ++ k)

/-- A lookup that fails inside the reader is reported as a missing field. -/
def WireError.ofPyError : PyError -> WireError
  | .keyError k => missingField k
  | e => .raised e

def schemaVersion : Int := 5

namespace Fragment

def refJson : Option String -> Json ℚ
  | none => .null
  | some ref => .str ref

def members (f : Fragment) : List (String × Json ℚ) :=
  [("schema_version", .int schemaVersion),
    ("tenant_id", .str f.tenantId),
    ("identity", f.identity.toDict),
    ("payload_ref", refJson f.payloadRef),
    ("payload_size", .int f.payloadSize),
    ("ttl", .float f.ttl),
    ("reuse_score", .float f.reuseScore),
    ("version_id", .int f.versionId),
    ("consistency", .str f.consistency.name),
    ("hlc", .int f.hlc),
    ("fingerprint_compat", .str f.fingerprintCompat)]

def schemaFields : List String :=
  ["schema_version", "tenant_id", "identity", "payload_ref", "payload_size", "ttl",
    "reuse_score", "version_id", "consistency", "hlc", "fingerprint_compat"]

/-- Whether `value == 5`. -/
def isSchemaVersion : Json ℚ -> Bool
  | .int n => n = schemaVersion
  | .float x => x = schemaVersion
  | _ => false

def required (members : List (String × Json ℚ)) (k : String) : Except WireError Unit :=
  if (Json.lookup members k).isSome then .ok () else .error (missingField k)

def field {alpha : Type} (convert : Json ℚ -> Except PyError alpha)
    (members : List (String × Json ℚ)) (k : String) : Except WireError alpha :=
  (Json.getItem k (.dict members) >>= convert).mapError WireError.ofPyError

-- The source keeps a reference of any type; fragments have texts or none.
def toRef : Json ℚ -> Except PyError (Option String)
  | .str ref => .ok (some ref)
  | _ => .ok none

def ofFields (fields : FragmentFields) (consistency : String) : Except PyError Fragment :=
  match Consistency.ofName? consistency with
  | some level =>
    ({ fields with consistency := level } : FragmentFields).construct.mapError .valueError
  | none => Except.mapError .valueError do
      check (0 ≤ fields.payloadSize)
        ("Fragment payload_size must be >= 0, got " ++ toString fields.payloadSize)
      check (0 ≤ fields.ttl) ("Fragment ttl must be >= 0, got " ++ toString fields.ttl)
      check (0 ≤ fields.reuseScore ∧ fields.reuseScore ≤ 1)
        ("Fragment reuse_score must be in [0, 1], got " ++ toString fields.reuseScore)
      check (1 ≤ fields.versionId)
        ("Fragment version_id must be >= 1, got " ++ toString fields.versionId)
      .error ("Fragment consistency must be one of " ++
        "('strong', 'quorum', 'eventual'), got '" ++ consistency ++ "'")

section Reading

variable [PyFloat ℚ]

def toStr (value : Json ℚ) : Except PyError String :=
  .ok (PyText.str value)

def readLast (members : List (String × Json ℚ)) (identity : PayloadIdentity)
    (payloadRef : Option String) (payloadSize : Int) (ttl reuseScore : ℚ) (versionId : Int)
    (tenantId : String) : Except WireError Fragment := do
  let consistency <- field toStr members "consistency"
  let hlc <- field Json.toInt members "hlc"
  let fingerprintCompat <- field toStr members "fingerprint_compat"
  let fields : FragmentFields :=
    { identity, payloadRef, payloadSize, ttl, reuseScore, versionId
      consistency := .strong
      hlc, fingerprintCompat, tenantId }
  (ofFields fields consistency).mapError WireError.ofPyError

def readRest (members : List (String × Json ℚ)) (identity : PayloadIdentity) :
    Except WireError Fragment := do
  required members "consistency"
  required members "hlc"
  required members "fingerprint_compat"
  let tenantId := PyText.str ((Json.lookup members "tenant_id").getD (.str defaultTenant))
  let payloadRef <- field toRef members "payload_ref"
  let payloadSize <- field Json.toInt members "payload_size"
  let ttl <- field Json.toFloat members "ttl"
  let reuseScore <- field Json.toFloat members "reuse_score"
  let versionId <- field Json.toInt members "version_id"
  readLast members identity payloadRef payloadSize ttl reuseScore versionId tenantId

def readFields (members : List (String × Json ℚ)) : Except WireError Fragment := do
  let identity <- field PayloadIdentity.fromDict members "identity"
  readRest members identity

def fromDict (members : List (String × Json ℚ)) : Except WireError Fragment :=
  match Json.lookup members "schema_version" with
  | none => .error (.schemaError "serialized fragment missing schema_version")
  | some version =>
    if isSchemaVersion version then readFields members
    else
      .error (.schemaError ("incompatible schema_version=" ++ PyText.str version ++
        "; expected " ++ toString schemaVersion))

end Reading

/-!
# Reading a fragment back
-/

variable {members : List (String × Json ℚ)} {k : String}
  {rest : List (String × (Json ℚ -> Prop))}

theorem field_of_lookup {alpha : Type} {convert : Json ℚ -> Except PyError alpha}
    {value : Json ℚ} {a : alpha} (hlookup : Json.lookup members k = some value)
    (hconvert : convert value = .ok a) : field convert members k = .ok a := by
  rw [field, Json.getItem, hlookup]
  show Except.mapError WireError.ofPyError (convert value) = .ok a
  rw [hconvert]
  rfl

theorem required_of_lookup {value : Json ℚ} (hlookup : Json.lookup members k = some value) :
    required members k = .ok () := by
  rw [required, hlookup]
  rfl

theorem construct_toFragmentFields (f : Fragment) :
    f.toFragmentFields.construct = .ok f := by
  unfold FragmentFields.construct
  split
  · next message herror =>
      rw [f.accepted] at herror
      cases herror
  · rfl

theorem ofFields_of_fragment (f : Fragment) (level : Consistency) :
    ofFields { f.toFragmentFields with consistency := level } f.consistency.name = .ok f := by
  rw [ofFields, Consistency.ofName?_name]
  show f.toFragmentFields.construct.mapError PyError.valueError = .ok f
  rw [construct_toFragmentFields]
  rfl

theorem toRef_refJson (ref : Option String) : toRef (refJson ref) = .ok ref := by
  cases ref with
  | none => rfl
  | some ref => rfl

section RoundTrip

variable [PyFloat ℚ]

theorem toStr_str (s : String) : toStr (.str s) = .ok s :=
  congrArg Except.ok (PyText.str_str s)

theorem fromDict_of_lookup {f : Fragment}
    (h : forall k, k ≠ "tenant_id" -> Json.lookup members k = Json.lookup f.members k)
    (htenant : PyText.str ((Json.lookup members "tenant_id").getD (.str defaultTenant)) =
      f.tenantId) : fromDict members = .ok f := by
  have hlookup : forall k value, k ≠ "tenant_id" -> Json.lookup f.members k = some value ->
      Json.lookup members k = some value := by
    intro k value hk hvalue
    rw [h k hk, hvalue]
  have hversion := hlookup "schema_version" (.int schemaVersion) (by decide) rfl
  have hidentity : field PayloadIdentity.fromDict members "identity" = .ok f.identity :=
    field_of_lookup (hlookup _ _ (by decide) rfl)
      (PayloadIdentity.fromDict_of_perm (List.Perm.refl _))
  have href : field toRef members "payload_ref" = .ok f.payloadRef :=
    field_of_lookup (hlookup _ _ (by decide) rfl) (toRef_refJson f.payloadRef)
  have hsize : field Json.toInt members "payload_size" = .ok f.payloadSize :=
    field_of_lookup (hlookup _ _ (by decide) rfl) rfl
  have httl : field Json.toFloat members "ttl" = .ok f.ttl :=
    field_of_lookup (hlookup _ _ (by decide) rfl) rfl
  have hreuse : field Json.toFloat members "reuse_score" = .ok f.reuseScore :=
    field_of_lookup (hlookup _ _ (by decide) rfl) rfl
  have hversionId : field Json.toInt members "version_id" = .ok f.versionId :=
    field_of_lookup (hlookup _ _ (by decide) rfl) rfl
  have hconsistency : field toStr members "consistency" = .ok f.consistency.name :=
    field_of_lookup (hlookup _ _ (by decide) rfl) (toStr_str f.consistency.name)
  have hhlc : field Json.toInt members "hlc" = .ok f.hlc :=
    field_of_lookup (hlookup _ _ (by decide) rfl) rfl
  have hfingerprint : field toStr members "fingerprint_compat" = .ok f.fingerprintCompat :=
    field_of_lookup (hlookup _ _ (by decide) rfl) (toStr_str f.fingerprintCompat)
  rw [fromDict, hversion]
  refine (if_pos rfl).trans ?_
  rw [readFields, hidentity, ok_bind, readRest,
    required_of_lookup (hlookup "consistency" _ (by decide) rfl), ok_bind,
    required_of_lookup (hlookup "hlc" _ (by decide) rfl), ok_bind,
    required_of_lookup (hlookup "fingerprint_compat" _ (by decide) rfl), ok_bind]
  simp only [htenant, href, hsize, httl, hreuse, hversionId, readLast, hconsistency, hhlc,
    hfingerprint, ok_bind]
  rw [ofFields_of_fragment]
  rfl

theorem fromDict_members (f : Fragment) : fromDict f.members = .ok f :=
  fromDict_of_lookup (fun _ _ => rfl) (PyText.str_str f.tenantId)

end RoundTrip

/-!
# Missing fields

A dictionary that lacks a field is to be refused with a schema error.  It is when
the first thing wrong with it, in the order in which the fields are read, is a
missing field.
-/

/-- The dictionary, or that of its identity, lacks a field of the schema. -/
def LacksField (members : List (String × Json ℚ)) : Prop :=
  (exists k, k ∈ schemaFields ∧ Json.lookup members k = none) ∨
    exists inner, Json.lookup members "identity" = some (.dict inner) ∧
      exists k, k ∈ PayloadIdentity.requiredFields ∧ Json.lookup inner k = none

def IsSchemaError {alpha : Type} (x : Except WireError alpha) : Prop :=
  exists message, x = .error (.schemaError message)

def MissingFirst (members : List (String × Json ℚ)) :
    List (String × (Json ℚ -> Prop)) -> Prop
  | [] => False
  | (k, converts) :: rest =>
    Json.lookup members k = none ∨
      exists value, Json.lookup members k = some value ∧ converts value ∧
        MissingFirst members rest

theorem isSchemaError_field_bind {alpha beta : Type} {convert : Json ℚ -> Except PyError alpha}
    {next : alpha -> Except WireError beta} (hsafe : forall value, KeySafe (convert value)) :
    IsSchemaError (field convert members k >>= next) <->
      Json.lookup members k = none ∨
        exists value a, Json.lookup members k = some value ∧ convert value = .ok a ∧
          IsSchemaError (next a) := by
  cases hlookup : Json.lookup members k with
  | none =>
    have hfield : field convert members k = .error (missingField k) := by
      rw [field, Json.getItem, hlookup]
      rfl
    rw [hfield]
    exact ⟨fun _ => Or.inl rfl, fun _ => ⟨_, rfl⟩⟩
  | some value =>
    cases hconvert : convert value with
    | ok a =>
      rw [field_of_lookup hlookup hconvert]
      constructor
      · intro h
        exact Or.inr ⟨value, a, rfl, hconvert, h⟩
      · rintro (h | ⟨other, b, hother, hb, h⟩)
        · cases h
        · cases hother
          rw [hconvert] at hb
          cases hb
          exact h
    | error e =>
      have hfield : field convert members k = .error (.raised e) := by
        rw [field, Json.getItem, hlookup]
        show Except.mapError WireError.ofPyError (convert value) = _
        rw [hconvert]
        cases e with
        | keyError other => exact absurd hconvert (hsafe value other)
        | _ => rfl
      rw [hfield]
      constructor
      · rintro ⟨message, h⟩
        cases h
      · rintro (h | ⟨other, b, hother, hb, _⟩)
        · cases h
        · cases hother
          rw [hconvert] at hb
          cases hb

theorem required_eq_field :
    required members k = field (fun _ => .ok ()) members k := by
  rw [required, field, Json.getItem]
  cases Json.lookup members k with
  | none | some value => rfl

theorem missingFirst_required {beta : Type} {next : Unit -> Except WireError beta}
    (hnext : forall value, Json.lookup members k = some value ->
      (IsSchemaError (next ()) <-> MissingFirst members rest)) :
    IsSchemaError (required members k >>= next) <->
      MissingFirst members ((k, fun _ => True) :: rest) := by
  rw [required_eq_field, isSchemaError_field_bind (fun _ _ h => by cases h)]
  apply or_congr Iff.rfl
  constructor
  · rintro ⟨value, _, hlookup, _, h⟩
    exact ⟨value, hlookup, trivial, (hnext value hlookup).mp h⟩
  · rintro ⟨value, hlookup, _, h⟩
    exact ⟨value, (), hlookup, rfl, (hnext value hlookup).mpr h⟩

theorem missingFirst_field {alpha beta : Type} {convert : Json ℚ -> Except PyError alpha}
    {converts : Json ℚ -> Prop} {next : alpha -> Except WireError beta}
    (hconverts : forall value, converts value <-> exists a, convert value = .ok a)
    (hsafe : forall value, KeySafe (convert value))
    (hnext : forall a, IsSchemaError (next a) <-> MissingFirst members rest) :
    IsSchemaError (field convert members k >>= next) <->
      MissingFirst members ((k, converts) :: rest) := by
  rw [isSchemaError_field_bind hsafe]
  apply or_congr Iff.rfl
  constructor
  · rintro ⟨value, a, hlookup, hconvert, h⟩
    exact ⟨value, hlookup, (hconverts value).mpr ⟨a, hconvert⟩, (hnext a).mp h⟩
  · rintro ⟨value, hlookup, hconvert, h⟩
    rcases (hconverts value).mp hconvert with ⟨a, ha⟩
    exact ⟨value, a, hlookup, ha, (hnext a).mpr h⟩

theorem not_isSchemaError_ofPyError {alpha : Type} {x : Except PyError alpha}
    (hsafe : KeySafe x) : ¬ IsSchemaError (x.mapError WireError.ofPyError) := by
  rintro ⟨message, h⟩
  cases x with
  | ok a => cases h
  | error e =>
    cases e with
    | keyError k => exact hsafe k rfl
    | _ => cases h

theorem toRef_keySafe (value : Json ℚ) : KeySafe (toRef value) := by
  intro k h
  unfold toRef at h
  split at h <;> cases h

theorem toRef_total (value : Json ℚ) : exists ref, toRef value = .ok ref := by
  unfold toRef
  split
  · exact ⟨_, rfl⟩
  · exact ⟨_, rfl⟩

theorem ofFields_keySafe (fields : FragmentFields) (consistency : String) :
    KeySafe (ofFields fields consistency) := by
  unfold ofFields
  split
  · exact keySafe_valueError _
  · exact keySafe_valueError _

section Strictness

variable [PyFloat ℚ]

theorem toStr_keySafe (value : Json ℚ) : KeySafe (toStr value) :=
  keySafe_ok _

def ReadsAsInt (value : Json ℚ) : Prop :=
  exists n, value.toInt = .ok n

def ReadsAsFloat (value : Json ℚ) : Prop :=
  exists x, value.toFloat = .ok x

/-- The fields behind the identity in the order they are read, with what each value must be. -/
def readingOrder : List (String × (Json ℚ -> Prop)) :=
  [("consistency", fun _ => True), ("hlc", fun _ => True),
    ("fingerprint_compat", fun _ => True), ("payload_ref", fun _ => True),
    ("payload_size", ReadsAsInt), ("ttl", ReadsAsFloat), ("reuse_score", ReadsAsFloat),
    ("version_id", ReadsAsInt)]

/-- The version or the identity is missing or wrong, or a missing field is the first that
fails. -/
def RefusedForSchema (members : List (String × Json ℚ)) : Prop :=
  (forall version, Json.lookup members "schema_version" = some version ->
    isSchemaVersion version = false) ∨
  Json.lookup members "identity" = none ∨
  exists value identity, Json.lookup members "identity" = some value ∧
    PayloadIdentity.fromDict value = .ok identity ∧ MissingFirst members readingOrder

theorem readLast_not_schemaError {identity : PayloadIdentity} {payloadRef : Option String}
    {payloadSize : Int} {ttl reuseScore : ℚ} {versionId : Int} {tenantId : String}
    (hpresent : forall k, k ∈ ["consistency", "hlc", "fingerprint_compat"] ->
      Json.lookup members k ≠ none) :
    ¬ IsSchemaError (readLast members identity payloadRef payloadSize ttl reuseScore versionId
      tenantId) := by
  intro h
  rw [readLast, isSchemaError_field_bind toStr_keySafe] at h
  rcases h with h | ⟨_, consistency, _, _, h⟩
  · exact hpresent _ (by decide) h
  rw [isSchemaError_field_bind Json.toInt_keySafe] at h
  rcases h with h | ⟨_, hlc, _, _, h⟩
  · exact hpresent _ (by decide) h
  rw [isSchemaError_field_bind toStr_keySafe] at h
  rcases h with h | ⟨_, fingerprint, _, _, h⟩
  · exact hpresent _ (by decide) h
  exact not_isSchemaError_ofPyError (ofFields_keySafe _ _) h

theorem isSchemaError_readRest (members : List (String × Json ℚ)) (identity : PayloadIdentity) :
    IsSchemaError (readRest members identity) <-> MissingFirst members readingOrder := by
  refine missingFirst_required (fun _ hconsistency => ?_)
  refine missingFirst_required (fun _ hhlc => ?_)
  refine missingFirst_required (fun _ hfingerprint => ?_)
  refine missingFirst_field (fun value => ⟨fun _ => toRef_total value, fun _ => trivial⟩)
    toRef_keySafe (fun _ => ?_)
  refine missingFirst_field (fun _ => Iff.rfl) Json.toInt_keySafe (fun _ => ?_)
  refine missingFirst_field (fun _ => Iff.rfl) Json.toFloat_keySafe (fun _ => ?_)
  refine missingFirst_field (fun _ => Iff.rfl) Json.toFloat_keySafe (fun _ => ?_)
  refine missingFirst_field (fun _ => Iff.rfl) Json.toInt_keySafe (fun _ => ?_)
  refine iff_of_false (readLast_not_schemaError ?_) id
  intro k hk hnone
  simp only [List.mem_cons, List.not_mem_nil, or_false] at hk
  rcases hk with rfl | rfl | rfl
  · rw [hnone] at hconsistency
    cases hconsistency
  · rw [hnone] at hhlc
    cases hhlc
  · rw [hnone] at hfingerprint
    cases hfingerprint

theorem isSchemaError_fromDict (members : List (String × Json ℚ)) :
    IsSchemaError (fromDict members) <-> RefusedForSchema members := by
  rw [fromDict, RefusedForSchema]
  cases hversion : Json.lookup members "schema_version" with
  | none =>
    refine iff_of_true ⟨_, rfl⟩ (Or.inl ?_)
    intro version h
    cases h
  | some version =>
    cases hcurrent : isSchemaVersion version with
    | false =>
      refine iff_of_true ⟨_, if_neg (by rw [hcurrent]; decide)⟩ (Or.inl ?_)
      intro other h
      cases h
      exact hcurrent
    | true =>
      show IsSchemaError (if isSchemaVersion version = true then _ else _) <-> _
      rw [if_pos hcurrent, readFields,
        isSchemaError_field_bind PayloadIdentity.fromDict_keySafe]
      simp only [isSchemaError_readRest]
      constructor
      · intro h
        exact Or.inr h
      · rintro (h | h)
        · have hother := h version rfl
          rw [hcurrent] at hother
          cases hother
        · exact h

def FaithfulAndStrict (f : Fragment) (members : List (String × Json ℚ)) : Prop :=
  fromDict f.members = .ok f ∧ (LacksField members -> IsSchemaError (fromDict members))

theorem faithfulAndStrict_iff (f : Fragment) (members : List (String × Json ℚ)) :
    FaithfulAndStrict f members <-> (LacksField members -> RefusedForSchema members) := by
  rw [FaithfulAndStrict, isSchemaError_fromDict]
  constructor
  · intro h
    exact h.right
  · intro h
    exact ⟨fromDict_members f, h⟩

end Strictness

/-!
# A dictionary without a tenant
-/

section Tenantless

@[reducible] def exactFloats : PyFloat ℚ where
  truncate x := x.num.tdiv x.den
  parseInt _ := none
  str
    | .str s => s
    | _ => ""
  str_str _ := rfl
  ofInt n := some n
  parseFloat _ := none

attribute [local instance] exactFloats

def tenantless (f : Fragment) : List (String × Json ℚ) :=
  f.members.filter (fun member => member.1 ≠ "tenant_id")

theorem tenantless_acmeCopy :
    fromDict (tenantless acmeCopy) =
      .ok (Fragment.plain "public" "h" none 60 .strong rfl rfl) := by
  have hsame : tenantless acmeCopy =
      tenantless (Fragment.plain "public" "h" none 60 .strong rfl rfl) := rfl
  rw [hsame]
  refine fromDict_of_lookup (fun k hk => Json.lookup_filter_of_ne _ hk) ?_
  rfl

theorem tenantless_not_strict :
    fromDict (tenantless acmeCopy) =
        .ok (Fragment.plain "public" "h" none 60 .strong rfl rfl) ∧
      ¬ FaithfulAndStrict acmeCopy (tenantless acmeCopy) := by
  refine ⟨tenantless_acmeCopy, ?_⟩
  intro h
  have hlacks : LacksField (tenantless acmeCopy) :=
    Or.inl ⟨"tenant_id", by decide, rfl⟩
  rcases h.right hlacks with ⟨message, hmessage⟩
  rw [tenantless_acmeCopy] at hmessage
  cases hmessage

end Tenantless

end Fragment
end Data
end Membrane
