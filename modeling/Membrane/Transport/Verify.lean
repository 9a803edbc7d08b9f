import Membrane.Transport.FailClosed

/-!
# Confirming what a peer received

A sender asks a peer whether it holds a fragment with the claimed size and digest.  The
client writes the body of the request, the route reads the fields it names itself, and the
operation looks the fragment up.
-/

namespace Membrane
namespace Transport

open Foundation Data Store Serving

/-!
# The request
-/

def maxBodyBytes : Int := 100 * 2 ^ 20

structure VerifyRequest where
  contentHash : String
  claimedSize : Int
  claimedSha256Hex : String
  deriving DecidableEq

def textField (body : List (String × Value)) (field : String) : Option String :=
  match body.lookup field with
  | some (.text s) => some s
  | _ => none

def intField (body : List (String × Value)) (field : String) : Option Int :=
  match body.lookup field with
  | some (.int i) => some i
  | _ => none

namespace VerifyRequest

def Valid (r : VerifyRequest) : Prop :=
  (1 ≤ r.contentHash.length ∧ r.contentHash.length ≤ 256) ∧
    (0 ≤ r.claimedSize ∧ r.claimedSize ≤ maxBodyBytes) ∧ r.claimedSha256Hex.length = 64

instance (r : VerifyRequest) : Decidable r.Valid :=
  inferInstanceAs (Decidable ((_ ∧ _) ∧ (_ ∧ _) ∧ _))

/-- Every field must be there with a value in its bounds.  Other fields are ignored. -/
def ofBody (body : List (String × Value)) : Option VerifyRequest :=
  match textField body "content_hash", intField body "claimed_size",
      textField body "claimed_sha256_hex" with
  | some contentHash, some claimedSize, some claimedSha256Hex =>
    let r : VerifyRequest :=
      { contentHash := contentHash
        claimedSize := claimedSize
        claimedSha256Hex := claimedSha256Hex }
    if r.Valid then some r else none
  | _, _, _ => none

end VerifyRequest

def verifyBody (contentHash : String) (claimedSize : Int) (claimedSha256Hex : String) :
    List (String × Value) :=
  [("content_hash", .text contentHash), ("claimed_size", .int claimedSize),
    ("claimed_sha256", .text claimedSha256Hex)]

theorem ofBody_verifyBody (contentHash : String) (claimedSize : Int)
    (claimedSha256Hex : String) :
    VerifyRequest.ofBody (verifyBody contentHash claimedSize claimedSha256Hex) = none :=
  rfl

/-!
# The operation
-/

section Verifying

variable {sigma tau pi : Type} [ContentStore sigma] [PayloadDigest]

/-- The digest is reported, and only the size decides about the success. -/
def opVerifyReceived (n : Node sigma tau pi) (contentHash : String) (claimedSize : Int)
    (claimedSha256Hex : String) : Response :=
  match n.fragments.get? contentHash with
  | none =>
    okResponse [("success", .bool false), ("reason", .text "fragment missing"),
      ("content_hash", .text contentHash)]
  | some f =>
    if f.payloadSize ≠ claimedSize then
      okResponse [("success", .bool false), ("reason", .text "size mismatch"),
        ("content_hash", .text contentHash), ("claimed", .int claimedSize),
        ("actual", .int f.payloadSize)]
    else
      match f.payloadRef.bind (ContentStore.get n.contentStore) with
      | some actual =>
        okResponse [("success", .bool true), ("content_hash", .text contentHash),
          ("size", .int f.payloadSize),
          ("sha256", .text (PayloadDigest.sha256Hex actual)),
          ("claimed_sha256", .text claimedSha256Hex),
          ("bytes_match", .bool (PayloadDigest.sha256Hex actual = claimedSha256Hex))]
      | none =>
        okResponse [("success", .bool true), ("content_hash", .text contentHash),
          ("size", .int f.payloadSize), ("claimed_sha256", .text claimedSha256Hex)]

/-- A body that does not fit is refused before the caller's scope is checked. -/
def handleVerify (n : Node sigma tau pi) (authorized : Bool)
    (body : List (String × Value)) : Response :=
  match VerifyRequest.ofBody body with
  | none => { status := 422, body := [] }
  | some r =>
    if authorized then opVerifyReceived n r.contentHash r.claimedSize r.claimedSha256Hex
    else { status := 403, body := [] }

def requestVerifyReceived (n : Node sigma tau pi) (authorized : Bool) (contentHash : String)
    (claimedSize : Int) (claimedSha256Hex : String) : Bool :=
  accepts (.ok (handleVerify n authorized
    (verifyBody contentHash claimedSize claimedSha256Hex))) "success"

def HoldsClaimed (n : Node sigma tau pi) (contentHash : String) (claimedSize : Int)
    (claimedSha256Hex : String) : Prop :=
  exists f ref data, n.fragments.get? contentHash = some f ∧ f.payloadSize = claimedSize ∧
    f.payloadRef = some ref ∧ ContentStore.get n.contentStore ref = some data ∧
    PayloadDigest.sha256Hex data = claimedSha256Hex

theorem requestVerifyReceived_eq_false (n : Node sigma tau pi) (authorized : Bool)
    (contentHash : String) (claimedSize : Int) (claimedSha256Hex : String) :
    requestVerifyReceived n authorized contentHash claimedSize claimedSha256Hex = false := by
  unfold requestVerifyReceived handleVerify
  rw [ofBody_verifyBody]
  rfl

theorem requestVerifyReceived_exact_iff (n : Node sigma tau pi) (authorized : Bool)
    (contentHash : String) (claimedSize : Int) (claimedSha256Hex : String) :
    (requestVerifyReceived n authorized contentHash claimedSize claimedSha256Hex = true <->
        HoldsClaimed n contentHash claimedSize claimedSha256Hex) <->
      ¬ HoldsClaimed n contentHash claimedSize claimedSha256Hex := by
  rw [requestVerifyReceived_eq_false]
  constructor
  · intro hexact hholds
    exact absurd (hexact.mpr hholds) Bool.false_ne_true
  · intro hnot
    exact iff_of_false Bool.false_ne_true hnot

end Verifying

/-!
# A fragment that is there
-/

section Held

attribute [local instance] InventoryHash.constant PayloadDigest.checksum

theorem heldFragment_not_verified :
    HoldsClaimed sharedNode "a:h" 60 (PayloadDigest.sha256Hex [7]) ∧
      requestVerifyReceived sharedNode true "a:h" 60 (PayloadDigest.sha256Hex [7]) =
        false := by
  constructor
  · exact ⟨firstCopy, "r", [7], by decide +kernel, rfl, rfl, by decide +kernel, rfl⟩
  · rfl

end Held

end Transport
end Membrane
