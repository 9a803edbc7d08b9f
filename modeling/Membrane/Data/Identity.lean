import Mathlib.Data.List.Basic
import Membrane.Foundation.Check

/-!
# Payload identities

A payload identity is the ten-field fingerprint under which a fragment is
addressed.  An identity carries the proof that its fields passed the checks
made at construction.
-/

namespace Membrane
namespace Data

open Foundation

inductive Dtype where
  | float16
  | bfloat16
  | float32
  | float64
  | int8
  | int16
  | int32
  | int64
  | uint8
  | fp8E4M3
  | fp8E5M2
  | nf4
  deriving DecidableEq

structure IdentityFields where
  payloadHash : String
  modelId : String
  modelRevision : String
  tokenizerName : String
  tokenizerRevision : String
  layerRange : Int × Int
  headRange : Int × Int
  tokenSpan : Int × Int
  dtype : Dtype
  shape : List Int
  deriving DecidableEq

def ValidRange (range : Int × Int) : Prop :=
  0 ≤ range.1 ∧ 0 ≤ range.2 ∧ range.1 ≤ range.2

instance (range : Int × Int) : Decidable (ValidRange range) :=
  inferInstanceAs (Decidable (_ ∧ _ ∧ _))

/-- The sentinel head range that stands for all heads. -/
def allHeads : Int × Int := (-1, -1)

/-!
# Construction
-/

def checkRange (name : String) (range : Int × Int) : Except String Unit := do
  check (0 ≤ range.1 ∧ 0 ≤ range.2)
    s!"{name} bounds must be non-negative, got {range}"
  check (range.1 ≤ range.2)
    (s!"{name} start must be <= end, got start=" ++ toString range.1 ++
      ", end=" ++ toString range.2)

def checkHeadRange (range : Int × Int) : Except String Unit :=
  if range = allHeads then .ok () else checkRange "head_range" range

def IdentityFields.postInit (fields : IdentityFields) : Except String Unit := do
  check (fields.payloadHash ≠ "")
    "payload_hash must be a non-empty string, got ''"
  checkRange "layer_range" fields.layerRange
  checkRange "token_span" fields.tokenSpan
  checkHeadRange fields.headRange
  check (¬ (fields.headRange = allHeads ∧ fields.shape = []))
    "shape must be non-empty when head_range is the all-heads sentinel"
  check (fields.shape ≠ []) "shape must be a non-empty tuple of ints"

structure PayloadIdentity extends IdentityFields where
  accepted : toIdentityFields.postInit = .ok ()
  deriving DecidableEq

def IdentityFields.construct (fields : IdentityFields) : Except String PayloadIdentity :=
  match h : fields.postInit with
  | .error message => .error message
  | .ok () => .ok { toIdentityFields := fields, accepted := h }

theorem checkRange_eq_ok_iff (name : String) (range : Int × Int) :
    checkRange name range = .ok () <-> ValidRange range := by
  simp [checkRange, ValidRange, and_assoc]

theorem checkHeadRange_eq_ok_iff (range : Int × Int) :
    checkHeadRange range = .ok () <->
      range = allHeads ∨ ValidRange range := by
  unfold checkHeadRange
  by_cases h : range = allHeads
  · simp [h]
  · rw [if_neg h, checkRange_eq_ok_iff]
    simp [h]

theorem IdentityFields.postInit_eq_ok_iff (fields : IdentityFields) :
    fields.postInit = .ok () <->
      fields.payloadHash ≠ "" ∧ ValidRange fields.layerRange ∧
        ValidRange fields.tokenSpan ∧
        (fields.headRange = allHeads ∨ ValidRange fields.headRange) ∧
        fields.shape ≠ [] := by
  unfold IdentityFields.postInit
  simp only [bind_unit_eq_ok_iff, check_eq_ok_iff, checkRange_eq_ok_iff,
    checkHeadRange_eq_ok_iff]
  constructor
  · rintro ⟨hhash, hlayer, hspan, hhead, _hall, hshape⟩
    exact ⟨hhash, hlayer, hspan, hhead, hshape⟩
  · rintro ⟨hhash, hlayer, hspan, hhead, hshape⟩
    exact ⟨hhash, hlayer, hspan, hhead, fun h => hshape h.right, hshape⟩

theorem PayloadIdentity.tokenSpan_valid (identity : PayloadIdentity) :
    ValidRange identity.tokenSpan :=
  ((IdentityFields.postInit_eq_ok_iff _).mp identity.accepted).right.right.left

def PayloadIdentity.rebase (identity : PayloadIdentity) (offset : Nat) : PayloadIdentity where
  toIdentityFields := { identity.toIdentityFields with
    tokenSpan := (offset + identity.tokenSpan.1, offset + identity.tokenSpan.2) }
  accepted := by
    rcases (IdentityFields.postInit_eq_ok_iff _).mp identity.accepted with
      ⟨hhash, hlayer, hspan, hrest⟩
    rcases hspan with ⟨hstart, hstop, hle⟩
    exact (IdentityFields.postInit_eq_ok_iff _).mpr
      ⟨hhash, hlayer, ⟨by simp only; omega, by simp only; omega, by simp only; omega⟩, hrest⟩

theorem nonempty_h : ("h" == "") = false := rfl

def PayloadIdentity.plain (payloadHash : String) (hhash : (payloadHash == "") = false) :
    PayloadIdentity where
  payloadHash := payloadHash
  modelId := "model"
  modelRevision := "main"
  tokenizerName := "tokenizer"
  tokenizerRevision := "main"
  layerRange := (0, 0)
  headRange := allHeads
  tokenSpan := (0, 0)
  dtype := .float16
  shape := [1]
  accepted := by
    have hrange : ValidRange (0, 0) := by decide
    exact (IdentityFields.postInit_eq_ok_iff _).mpr
      ⟨ne_of_beq_false hhash, hrange, hrange, Or.inl rfl, List.cons_ne_nil 1 []⟩

/-- The identity of a window of a prompt: the tokens from `start` to
`start + extra` of one layer of a model. -/
def PayloadIdentity.window (payloadHash modelId : String) (start extra : Nat)
    (hhash : (payloadHash == "") = false) : PayloadIdentity where
  payloadHash := payloadHash
  modelId := modelId
  modelRevision := "main"
  tokenizerName := "tokenizer"
  tokenizerRevision := "main"
  layerRange := (0, 0)
  headRange := allHeads
  tokenSpan := (start, start + extra)
  dtype := .float16
  shape := [1]
  accepted := by
    have hrange : ValidRange (0, 0) := by decide
    have hspan : ValidRange ((start : Int), (start : Int) + extra) :=
      ⟨by omega, by omega, by omega⟩
    exact (IdentityFields.postInit_eq_ok_iff _).mpr
      ⟨ne_of_beq_false hhash, hrange, hspan, Or.inl rfl, List.cons_ne_nil 1 []⟩

end Data
end Membrane
