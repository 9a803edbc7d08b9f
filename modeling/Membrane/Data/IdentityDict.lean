import Membrane.Data.Identity
import Membrane.Foundation.Json

/-!
# Identities as dictionaries

On the wire an identity is a JSON object of its ten fields.  Reading one back
checks that the fields are there, converts them, and constructs the identity,
which checks it.
-/

namespace Membrane
namespace Data

open Foundation

namespace Dtype

def all : List Dtype :=
  [bfloat16, float16, float32, float64, fp8E4M3, fp8E5M2, int16, int32, int64, int8, nf4,
    uint8]

def name : Dtype -> String
  | float16 => "float16"
  | bfloat16 => "bfloat16"
  | float32 => "float32"
  | float64 => "float64"
  | int8 => "int8"
  | int16 => "int16"
  | int32 => "int32"
  | int64 => "int64"
  | uint8 => "uint8"
  | fp8E4M3 => "fp8_e4m3"
  | fp8E5M2 => "fp8_e5m2"
  | nf4 => "nf4"

def ofName? (s : String) : Option Dtype :=
  all.find? (fun dtype => dtype.name = s)

theorem ofName?_name (dtype : Dtype) : ofName? dtype.name = some dtype := by
  cases dtype <;> rfl

end Dtype

def reprNames (names : List String) : String :=
  "[" ++ ", ".intercalate (names.map (fun name => "'" ++ name ++ "'")) ++ "]"

namespace PayloadIdentity

variable {phi : Type}

def rangeJson (range : Int × Int) : Json phi :=
  .list [.int range.1, .int range.2]

def members (identity : PayloadIdentity) : List (String × Json phi) :=
  [("payload_hash", .str identity.payloadHash),
    ("model_id", .str identity.modelId),
    ("model_revision", .str identity.modelRevision),
    ("tokenizer_name", .str identity.tokenizerName),
    ("tokenizer_revision", .str identity.tokenizerRevision),
    ("layer_range", rangeJson identity.layerRange),
    ("head_range", rangeJson identity.headRange),
    ("token_span", rangeJson identity.tokenSpan),
    ("dtype", .str identity.dtype.name),
    ("shape", .list (identity.shape.map .int))]

def toDict (identity : PayloadIdentity) : Json phi :=
  .dict identity.members

def requiredFields : List String :=
  ["payload_hash", "model_id", "model_revision", "tokenizer_name", "tokenizer_revision",
    "layer_range", "head_range", "token_span", "dtype", "shape"]

def lacking (data : Json phi) : List String -> Except PyError (List String)
  | [] => .ok []
  | k :: rest => do
      let present <- data.contains k
      let others <- lacking data rest
      return if present then others else k :: others

def firstTwo : List Int -> Except PyError (Int × Int)
  | first :: second :: _ => .ok (first, second)
  | _ => .error .indexError

def intsAt [PyText phi] (data : Json phi) (k : String) : Except PyError (List Int) := do
  let value <- data.getItem k
  let items <- value.iter
  Json.toInts items

def textAt [PyText phi] (data : Json phi) (k : String) : Except PyError String := do
  let value <- data.getItem k
  return PyText.str value

def ofFields (payloadHash modelId modelRevision tokenizerName tokenizerRevision : String)
    (layerRange headRange tokenSpan : Int × Int) (dtype : String) (shape : List Int) :
    Except PyError PayloadIdentity :=
  if payloadHash = "" then
    .error (.valueError "payload_hash must be a non-empty string, got ''")
  else
    match Dtype.ofName? dtype with
    | none =>
      .error (.valueError ("dtype must be one of " ++
        reprNames (Dtype.all.map Dtype.name) ++ ", got '" ++ dtype ++ "'"))
    | some known =>
      (IdentityFields.construct
        { payloadHash := payloadHash
          modelId := modelId
          modelRevision := modelRevision
          tokenizerName := tokenizerName
          tokenizerRevision := tokenizerRevision
          layerRange := layerRange
          headRange := headRange
          tokenSpan := tokenSpan
          dtype := known
          shape := shape }).mapError .valueError

def fromDict [PyText phi] (data : Json phi) : Except PyError PayloadIdentity := do
  let missing <- lacking data requiredFields
  if missing ≠ [] then
    .error (.valueError ("PayloadIdentity missing required fields: " ++ reprNames missing))
  else
    let layerRange <- intsAt data "layer_range"
    let headRange <- intsAt data "head_range"
    let tokenSpan <- intsAt data "token_span"
    let shape <- intsAt data "shape"
    let payloadHash <- textAt data "payload_hash"
    let modelId <- textAt data "model_id"
    let modelRevision <- textAt data "model_revision"
    let tokenizerName <- textAt data "tokenizer_name"
    let tokenizerRevision <- textAt data "tokenizer_revision"
    let layers <- firstTwo layerRange
    let heads <- firstTwo headRange
    let tokens <- firstTwo tokenSpan
    let dtype <- textAt data "dtype"
    ofFields payloadHash modelId modelRevision tokenizerName tokenizerRevision layers heads
      tokens dtype shape

/-!
# Reading an identity back
-/

variable {members : List (String × Json phi)} {identity : PayloadIdentity}

theorem lacking_eq_nil {names : List String}
    (h : forall k, k ∈ names -> (Json.lookup members k).isSome) :
    lacking (.dict members) names = .ok [] := by
  induction names with
  | nil => rfl
  | cons k rest ih =>
    have hpresent := h k List.mem_cons_self
    have hothers := ih (fun other hother => h other (List.mem_cons_of_mem k hother))
    rw [lacking, hothers, Json.contains, hpresent]
    rfl

theorem construct_toIdentityFields (identity : PayloadIdentity) :
    identity.toIdentityFields.construct = .ok identity := by
  unfold IdentityFields.construct
  split
  · next message herror =>
      rw [identity.accepted] at herror
      cases herror
  · rfl

theorem ofFields_of_identity (identity : PayloadIdentity) :
    ofFields identity.payloadHash identity.modelId identity.modelRevision
      identity.tokenizerName identity.tokenizerRevision identity.layerRange
      identity.headRange identity.tokenSpan identity.dtype.name identity.shape =
        .ok identity := by
  have hhash : identity.payloadHash ≠ "" :=
    ((IdentityFields.postInit_eq_ok_iff _).mp identity.accepted).left
  unfold ofFields
  rw [if_neg hhash, Dtype.ofName?_name]
  show identity.toIdentityFields.construct.mapError PyError.valueError = .ok identity
  rw [construct_toIdentityFields]
  rfl

theorem fromDict_of_lookup [PyText phi]
    (h : forall k, Json.lookup members k = Json.lookup identity.members k) :
    fromDict (.dict members) = .ok identity := by
  have hpresent : forall k, k ∈ requiredFields -> (Json.lookup members k).isSome := by
    intro k hk
    rw [h k]
    simp only [requiredFields, List.mem_cons, List.not_mem_nil, or_false] at hk
    rcases hk with h | h | h | h | h | h | h | h | h | h <;> subst h <;> rfl
  have hrange : forall (k : String) (range : Int × Int),
      Json.lookup identity.members k = some (rangeJson range : Json phi) ->
      intsAt (.dict members) k = .ok [range.1, range.2] := by
    intro k range hk
    rw [intsAt, Json.getItem, h k, hk]
    rfl
  have htext : forall (k s : String),
      Json.lookup identity.members k = some (Json.str s : Json phi) ->
      textAt (.dict members) k = .ok s := by
    intro k s hk
    rw [textAt, Json.getItem, h k, hk]
    exact congrArg Except.ok (PyText.str_str s)
  have hshape : intsAt (.dict members) "shape" = .ok identity.shape := by
    rw [intsAt, Json.getItem, h "shape"]
    exact Json.toInts_map_int identity.shape
  rw [fromDict, lacking_eq_nil hpresent, hrange "layer_range" identity.layerRange rfl,
    hrange "head_range" identity.headRange rfl, hrange "token_span" identity.tokenSpan rfl,
    hshape, htext "payload_hash" identity.payloadHash rfl,
    htext "model_id" identity.modelId rfl, htext "model_revision" identity.modelRevision rfl,
    htext "tokenizer_name" identity.tokenizerName rfl,
    htext "tokenizer_revision" identity.tokenizerRevision rfl,
    htext "dtype" identity.dtype.name rfl]
  exact ofFields_of_identity identity

/-!
# Reading raises no key error
-/

theorem contains_of_lacking {data : Json phi} {names : List String}
    (h : lacking data names = .ok []) {k : String} (hk : k ∈ names) :
    data.contains k = .ok true := by
  induction names with
  | nil => cases hk
  | cons first rest ih =>
    rw [lacking] at h
    cases hfirst : data.contains first with
    | error e =>
      rw [hfirst] at h
      cases h
    | ok present =>
      rw [hfirst] at h
      cases hrest : lacking data rest with
      | error e =>
        rw [hrest] at h
        cases h
      | ok others =>
        rw [hrest] at h
        have hnone : (if present = true then others else first :: others) = [] :=
          Except.ok.inj h
        cases present with
        | false => cases hnone
        | true =>
          have hothers : others = [] := hnone
          rcases List.mem_cons.mp hk with hk | hk
          · rw [hk]
            exact hfirst
          · rw [hothers] at hrest
            exact ih hrest hk

theorem lacking_keySafe (data : Json phi) (names : List String) :
    KeySafe (lacking data names) := by
  induction names with
  | nil => exact keySafe_ok []
  | cons first rest ih =>
    apply keySafe_bind (Json.contains_keySafe first data)
    intro present _
    apply keySafe_bind ih
    intro others _
    exact keySafe_ok _

theorem firstTwo_keySafe (numbers : List Int) : KeySafe (firstTwo numbers) := by
  intro k h
  unfold firstTwo at h
  split at h <;> cases h

theorem ofFields_keySafe (payloadHash modelId modelRevision tokenizerName
    tokenizerRevision : String) (layerRange headRange tokenSpan : Int × Int) (dtype : String)
    (shape : List Int) :
    KeySafe (ofFields payloadHash modelId modelRevision tokenizerName tokenizerRevision
      layerRange headRange tokenSpan dtype shape) := by
  intro k h
  unfold ofFields at h
  split at h
  · cases h
  · split at h
    · cases h
    · exact keySafe_valueError _ k h

theorem fromDict_keySafe [PyText phi] (data : Json phi) : KeySafe (fromDict data) := by
  rw [fromDict]
  apply keySafe_bind (lacking_keySafe data requiredFields)
  intro missing hmissing
  split_ifs with hnone
  · intro k h
    cases h
  · rw [not_not.mp hnone] at hmissing
    have hints : forall k, k ∈ requiredFields -> KeySafe (intsAt data k) := by
      intro k hk
      apply keySafe_bind (Json.getItem_keySafe (contains_of_lacking hmissing hk))
      intro value _
      apply keySafe_bind (Json.iter_keySafe value)
      intro items _
      exact Json.toInts_keySafe items
    have htext : forall k, k ∈ requiredFields -> KeySafe (textAt data k) := by
      intro k hk
      apply keySafe_bind (Json.getItem_keySafe (contains_of_lacking hmissing hk))
      intro value _
      exact keySafe_ok _
    iterate 4 refine keySafe_bind (hints _ (by decide)) (fun _ _ => ?_)
    iterate 5 refine keySafe_bind (htext _ (by decide)) (fun _ _ => ?_)
    iterate 3 refine keySafe_bind (firstTwo_keySafe _) (fun _ _ => ?_)
    refine keySafe_bind (htext _ (by decide)) (fun _ _ => ?_)
    exact ofFields_keySafe _ _ _ _ _ _ _ _ _ _

theorem members_nodup (identity : PayloadIdentity) :
    ((identity.members : List (String × Json phi)).map Prod.fst).Nodup := by
  show requiredFields.Nodup
  decide

theorem fromDict_of_perm [PyText phi] (h : members.Perm identity.members) :
    fromDict (.dict members) = .ok identity :=
  fromDict_of_lookup (Json.lookup_of_perm h identity.members_nodup)

end PayloadIdentity
end Data
end Membrane
