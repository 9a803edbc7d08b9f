import Mathlib.Algebra.Ring.Rat
import Mathlib.Data.Rat.Encodable
import Membrane.Data.FragmentDict

/-!
# The texts of a record

In Redis a fragment is a flat record of texts: numbers are written in decimal, the shape as
its dimensions with commas between them, and a missing payload reference as the empty text.
Reading a record falls back on defaults for texts that are missing or empty.  The record of a
fragment whose reference is not the empty text is read back as the fragment.
-/

namespace Membrane
namespace Persistence
namespace TextRecord

open Foundation Data

class NumberText where
  strInt : Int -> String
  strFloat : Rat -> String
  parseInt : String -> Option Int
  parseFloat : String -> Option Rat
  parseInt_strInt : forall n, parseInt (strInt n) = some n
  parseFloat_strFloat : forall x, parseFloat (strFloat x) = some x
  strInt_ne_empty : forall n, strInt n ≠ ""
  comma_not_mem_strInt : forall n, ¬ ',' ∈ (strInt n).toList

abbrev Record := List (String × String)

def joinTexts (texts : List String) : String :=
  String.ofList ([','].intercalate (texts.map String.toList))

def splitTexts (text : String) : List String :=
  (text.toList.splitOn ',').map String.ofList

theorem splitTexts_joinTexts {texts : List String} (hne : texts ≠ [])
    (h : forall text, text ∈ texts -> ¬ ',' ∈ text.toList) :
    splitTexts (joinTexts texts) = texts := by
  have hparts : forall part, part ∈ texts.map String.toList -> ¬ ',' ∈ part := by
    intro part hpart
    obtain ⟨text, htext, rfl⟩ := List.mem_map.mp hpart
    exact h text htext
  unfold splitTexts joinTexts
  rw [String.toList_ofList,
    List.splitOn_intercalate ',' hparts (fun hnil => hne (List.map_eq_nil_iff.mp hnil)),
    List.map_map]
  refine (List.map_congr_left ?_).trans (List.map_id texts)
  intro text _
  exact String.ofList_toList

section Records

variable [NumberText]

def serializeFragment (f : Fragment) : Record :=
  [("payload_hash", f.identity.payloadHash),
    ("model_id", f.identity.modelId),
    ("model_revision", f.identity.modelRevision),
    ("tokenizer_name", f.identity.tokenizerName),
    ("tokenizer_revision", f.identity.tokenizerRevision),
    ("layer_start", NumberText.strInt f.identity.layerRange.1),
    ("layer_end", NumberText.strInt f.identity.layerRange.2),
    ("head_start", NumberText.strInt f.identity.headRange.1),
    ("head_end", NumberText.strInt f.identity.headRange.2),
    ("token_start", NumberText.strInt f.identity.tokenSpan.1),
    ("token_end", NumberText.strInt f.identity.tokenSpan.2),
    ("dtype", f.identity.dtype.name),
    ("shape", joinTexts (f.identity.shape.map NumberText.strInt)),
    ("payload_ref", f.payloadRef.getD ""),
    ("payload_size", NumberText.strInt f.payloadSize),
    ("ttl", NumberText.strFloat f.ttl),
    ("reuse_score", NumberText.strFloat f.reuseScore),
    ("version_id", NumberText.strInt f.versionId),
    ("tenant_id", f.tenantId),
    ("consistency", f.consistency.name),
    ("hlc", NumberText.strInt f.hlc),
    ("fingerprint_compat", f.fingerprintCompat)]

def toInt (text : String) : Except PyError Int :=
  match NumberText.parseInt text with
  | some n => .ok n
  | none => .error (.valueError ("invalid literal for int() with base 10: '" ++ text ++ "'"))

def toFloat (text : String) : Except PyError Rat :=
  match NumberText.parseFloat text with
  | some x => .ok x
  | none => .error (.valueError ("could not convert string to float: '" ++ text ++ "'"))

def required (data : Record) (k : String) : Except PyError String :=
  match data.lookup k with
  | some text => .ok text
  | none => .error (.keyError k)

def intAt (data : Record) (k : String) : Except PyError Int := do
  let text <- required data k
  toInt text

def floatAt (data : Record) (k : String) : Except PyError Rat := do
  let text <- required data k
  toFloat text

def headAt (data : Record) (k : String) : Except PyError Int :=
  match data.lookup k with
  | some text => toInt text
  | none => .ok (-1)

def textOr (data : Record) (k fallback : String) : String :=
  match data.lookup k with
  | some text => if text = "" then fallback else text
  | none => fallback

def refAt (data : Record) : Option String :=
  match data.lookup "payload_ref" with
  | some text => if text = "" then none else some text
  | none => none

def hlcAt (data : Record) : Except PyError Int :=
  match data.lookup "hlc" with
  | some text => if text = "" then .ok 0 else toInt text
  | none => .ok 0

def shapeAt (data : Record) : Except PyError (List Int) :=
  ((splitTexts ((data.lookup "shape").getD "1")).filter (fun text => text ≠ "")).mapM toInt

def identityAt (data : Record) : Except PyError PayloadIdentity := do
  let modelId := (data.lookup "model_id").getD ""
  let shape <- shapeAt data
  let payloadHash <- required data "payload_hash"
  let layerStart <- intAt data "layer_start"
  let layerEnd <- intAt data "layer_end"
  let headStart <- headAt data "head_start"
  let headEnd <- headAt data "head_end"
  let tokenStart <- intAt data "token_start"
  let tokenEnd <- intAt data "token_end"
  PayloadIdentity.ofFields payloadHash modelId ((data.lookup "model_revision").getD "")
    ((data.lookup "tokenizer_name").getD modelId)
    ((data.lookup "tokenizer_revision").getD "") (layerStart, layerEnd) (headStart, headEnd)
    (tokenStart, tokenEnd) ((data.lookup "dtype").getD "float16") shape

def deserializeFragment (data : Record) : Except PyError Fragment := do
  let identity <- identityAt data
  let payloadSize <- intAt data "payload_size"
  let ttl <- floatAt data "ttl"
  let reuseScore <- floatAt data "reuse_score"
  let versionId <- intAt data "version_id"
  let hlc <- hlcAt data
  Fragment.ofFields
    { identity := identity
      payloadRef := refAt data
      payloadSize := payloadSize
      ttl := ttl
      reuseScore := reuseScore
      versionId := versionId
      consistency := .strong
      hlc := hlc
      fingerprintCompat := (data.lookup "fingerprint_compat").getD ""
      tenantId := textOr data "tenant_id" "public" }
    (textOr data "consistency" "strong")

/-!
# Reading the record of a fragment
-/

theorem toInt_strInt (n : Int) : toInt (NumberText.strInt n) = .ok n := by
  unfold toInt
  rw [NumberText.parseInt_strInt]

theorem toFloat_strFloat (x : Rat) : toFloat (NumberText.strFloat x) = .ok x := by
  unfold toFloat
  rw [NumberText.parseFloat_strFloat]

theorem mapM_toInt (ns : List Int) : (ns.map NumberText.strInt).mapM toInt = .ok ns := by
  induction ns with
  | nil => rfl
  | cons n rest ih =>
    rw [List.map_cons, List.mapM_cons, toInt_strInt, ih]
    rfl

theorem shapeAt_serialize (f : Fragment) :
    shapeAt (serializeFragment f) = .ok f.identity.shape := by
  have hne : f.identity.shape ≠ [] :=
    ((IdentityFields.postInit_eq_ok_iff _).mp f.identity.accepted).right.right.right.right
  have htexts : forall text, text ∈ f.identity.shape.map NumberText.strInt ->
      text ≠ "" ∧ ¬ ',' ∈ text.toList := by
    intro text htext
    obtain ⟨n, _, rfl⟩ := List.mem_map.mp htext
    exact ⟨NumberText.strInt_ne_empty n, NumberText.comma_not_mem_strInt n⟩
  show ((splitTexts (joinTexts (f.identity.shape.map NumberText.strInt))).filter
    (fun text => text ≠ "")).mapM toInt = _
  rw [splitTexts_joinTexts (fun hnil => hne (List.map_eq_nil_iff.mp hnil))
      (fun text htext => (htexts text htext).right),
    List.filter_eq_self.mpr (fun text htext => decide_eq_true (htexts text htext).left)]
  exact mapM_toInt f.identity.shape

theorem identityAt_serialize (f : Fragment) :
    identityAt (serializeFragment f) = .ok f.identity := by
  unfold identityAt
  rw [shapeAt_serialize, ok_bind]
  show (toInt (NumberText.strInt f.identity.layerRange.1) >>= _) = _
  rw [toInt_strInt, ok_bind]
  show (toInt (NumberText.strInt f.identity.layerRange.2) >>= _) = _
  rw [toInt_strInt, ok_bind]
  show (toInt (NumberText.strInt f.identity.headRange.1) >>= _) = _
  rw [toInt_strInt, ok_bind]
  show (toInt (NumberText.strInt f.identity.headRange.2) >>= _) = _
  rw [toInt_strInt, ok_bind]
  show (toInt (NumberText.strInt f.identity.tokenSpan.1) >>= _) = _
  rw [toInt_strInt, ok_bind]
  show (toInt (NumberText.strInt f.identity.tokenSpan.2) >>= _) = _
  rw [toInt_strInt, ok_bind]
  exact PayloadIdentity.ofFields_of_identity f.identity

theorem refAt_serialize {f : Fragment} (h : f.payloadRef ≠ some "") :
    refAt (serializeFragment f) = f.payloadRef := by
  show (if f.payloadRef.getD "" = "" then none else some (f.payloadRef.getD "")) = _
  cases href : f.payloadRef with
  | none => rfl
  | some ref =>
    refine if_neg ?_
    intro hempty
    rw [Option.getD_some] at hempty
    rw [href, hempty] at h
    exact h rfl

theorem hlcAt_serialize (f : Fragment) : hlcAt (serializeFragment f) = .ok f.hlc := by
  show (if NumberText.strInt f.hlc = "" then .ok 0 else toInt (NumberText.strInt f.hlc)) = _
  rw [if_neg (NumberText.strInt_ne_empty f.hlc), toInt_strInt]

/-- A record is read back as the fragment in every field but the reference, which is that of
the record. -/
theorem deserializeFragment_of_refAt {f : Fragment}
    (href : refAt (serializeFragment f) = f.payloadRef) :
    deserializeFragment (serializeFragment f) = .ok f := by
  have hconsistency : f.consistency.name ≠ "" := by
    cases f.consistency <;> decide
  have htenant : textOr (serializeFragment f) "tenant_id" "public" = f.tenantId :=
    if_neg ((validateTenantId_eq_ok_iff _).mp f.tenantId_valid).left
  have hlevel : textOr (serializeFragment f) "consistency" "strong" = f.consistency.name :=
    if_neg hconsistency
  unfold deserializeFragment
  rw [identityAt_serialize, ok_bind]
  show (toInt (NumberText.strInt f.payloadSize) >>= _) = _
  rw [toInt_strInt, ok_bind]
  show (toFloat (NumberText.strFloat f.ttl) >>= _) = _
  rw [toFloat_strFloat, ok_bind]
  show (toFloat (NumberText.strFloat f.reuseScore) >>= _) = _
  rw [toFloat_strFloat, ok_bind]
  show (toInt (NumberText.strInt f.versionId) >>= _) = _
  rw [toInt_strInt, ok_bind, hlcAt_serialize, ok_bind, href, htenant, hlevel]
  exact Fragment.ofFields_of_fragment f .strong

theorem deserializeFragment_serialize {f : Fragment} (h : f.payloadRef ≠ some "") :
    deserializeFragment (serializeFragment f) = .ok f :=
  deserializeFragment_of_refAt (refAt_serialize h)

end Records

section Sample

/-- A number as strokes, one more than its place in the enumeration of its type. -/
def tally {alpha : Type} [Encodable alpha] (a : alpha) : String :=
  String.ofList (List.replicate (Encodable.encode a + 1) '1')

def readTally (alpha : Type) [Encodable alpha] (text : String) : Option alpha :=
  Encodable.decode (text.toList.length - 1)

theorem readTally_tally {alpha : Type} [Encodable alpha] (a : alpha) :
    readTally alpha (tally a) = some a := by
  unfold readTally tally
  rw [String.toList_ofList, List.length_replicate, Nat.add_sub_cancel, Encodable.encodek]

theorem mem_tally {alpha : Type} [Encodable alpha] (a : alpha) (c : Char) :
    c ∈ (tally a).toList <-> c = '1' := by
  rw [tally, String.toList_ofList, List.mem_replicate]
  exact and_iff_right (Nat.succ_ne_zero _)

@[reducible] def tallies : NumberText where
  strInt := tally
  strFloat := tally
  parseInt := readTally Int
  parseFloat := readTally Rat
  parseInt_strInt := readTally_tally
  parseFloat_strFloat := readTally_tally
  strInt_ne_empty n hempty := by
    have hmem := (mem_tally n '1').mpr rfl
    rw [hempty] at hmem
    cases hmem
  comma_not_mem_strInt n hcomma := absurd ((mem_tally n ',').mp hcomma) (by decide)

attribute [local instance] tallies

theorem deserializeFragment_serialize_acme :
    deserializeFragment (serializeFragment
        (Fragment.plain "acme" "h" (some "blob") 3 .quorum validateTenantId_acme nonempty_h)) =
      .ok (Fragment.plain "acme" "h" (some "blob") 3 .quorum validateTenantId_acme
        nonempty_h) := by
  refine deserializeFragment_serialize ?_
  intro h
  exact absurd (Option.some.inj h) (by decide)

end Sample

end TextRecord
end Persistence
end Membrane
