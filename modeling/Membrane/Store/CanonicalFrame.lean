import Membrane.Data.IdentityDict
import Membrane.Foundation.Codec
import Membrane.Store.ContentStore

/-!
# Canonical frames

A payload is kept together with its identity in one frame: a magic number, a
schema version, a reserved field, the identity as JSON with its length, the
payload with its length, and the first bytes of the payload's digest.
-/

namespace Membrane
namespace Store

open Foundation Data

inductive DecodeFailure where
  | unicodeDecodeError
  | jsonDecodeError
  | recursionError
  deriving DecidableEq

inductive FrameError where
  | schemaError (message : String)
  | corruptPayloadError (message : String)
  | valueError (message : String)
  | structError
  | undecodable (failure : DecodeFailure)
  | raised (error : PyError)
  deriving DecidableEq

/-- The JSON codec on UTF-8 bytes, with sorted keys. -/
class JsonBytes (phi : Type) where
  dumps : Json phi -> Bytes
  loads : Bytes -> Except DecodeFailure (Json phi)

class FrameDigest where
  sha256 : Bytes -> Bytes
  length_sha256 : forall data, (sha256 data).length = 32

def frameMagic : Bytes := [0xC0, 0xDE, 0x01, 0x05]

def headerLen : Nat := 14

def trailerLen : Nat := 8

def canonicalSchemaVersion : Nat := 5

def structPack (width n : Nat) : Except FrameError Bytes :=
  if n < 256 ^ width then .ok (littleEndian width n) else .error .structError

def unpackFrom (width : Nat) (buf : Bytes) (offset : Nat) : Except FrameError Nat :=
  if offset + width ≤ buf.length then
    .ok (ofLittleEndian ((buf.drop offset).take width))
  else .error .structError

def slice (buf : Bytes) (start stop : Nat) : Bytes :=
  (buf.drop start).take (stop - start)

/-!
# The text of bytes in messages
-/

def hexByte (b : UInt8) : List Char :=
  [Nat.digitChar (b.toNat / 16), Nat.digitChar (b.toNat % 16)]

def reprByte (quote : Char) (b : UInt8) : List Char :=
  let c := Char.ofNat b.toNat
  if c = quote ∨ c = '\\' then ['\\', c]
  else if c = '\t' then ['\\', 't']
  else if c = '\n' then ['\\', 'n']
  else if c = '\r' then ['\\', 'r']
  else if 32 ≤ b.toNat ∧ b.toNat < 127 then [c]
  else ['\\', 'x'] ++ hexByte b

def reprBytes (data : Bytes) : String :=
  let single := UInt8.ofNat 39
  let double := UInt8.ofNat 34
  let quote := if single ∈ data ∧ ¬ double ∈ data then '"' else Char.ofNat 39
  String.ofList ('b' :: quote :: data.flatMap (reprByte quote) ++ [quote])

/-!
# Writing and parsing
-/

section Codec

variable {phi : Type} [PyText phi] [JsonBytes phi] [FrameDigest]

def trailerOf (payload : Bytes) : Bytes :=
  (FrameDigest.sha256 payload).take trailerLen

variable (phi) in
def canonicalize (identity : PayloadIdentity) (raw : Bytes) : Except FrameError Bytes :=
  if raw.length > 0xFFFFFFFFFFFFFFFF then
    .error (.valueError ("payload too large to frame: " ++ toString raw.length ++ " bytes"))
  else do
    let identityBytes := JsonBytes.dumps (identity.toDict : Json phi)
    let schema <- structPack 2 canonicalSchemaVersion
    let reserved <- structPack 4 0
    let identityLen <- structPack 4 identityBytes.length
    let payloadLen <- structPack 8 raw.length
    return (frameMagic ++ (schema ++ reserved) ++ identityLen) ++
      (identityBytes ++ payloadLen ++ raw) ++ trailerOf raw

def parsePayload (buf : Bytes) (identityEnd : Nat) : Except FrameError Bytes := do
  let payloadLen <- unpackFrom 8 buf identityEnd
  let payloadStart := identityEnd + 8
  let payloadEnd := payloadStart + payloadLen
  if payloadEnd + trailerLen > buf.length then
    .error (.corruptPayloadError "payload length extends past frame")
  else
    let payload := slice buf payloadStart payloadEnd
    if trailerOf payload ≠ slice buf payloadEnd (payloadEnd + trailerLen) then
      .error (.corruptPayloadError "canonical frame trailer mismatch")
    else .ok payload

variable (phi) in
def parseIdentity (text : Bytes) : Except FrameError PayloadIdentity := do
  let value <- (JsonBytes.loads text : Except DecodeFailure (Json phi)).mapError .undecodable
  (PayloadIdentity.fromDict value).mapError .raised

variable (phi) in
def parseCanonical (buf : Bytes) : Except FrameError (PayloadIdentity × Bytes) :=
  if buf.length < headerLen + trailerLen then
    .error (.corruptPayloadError ("frame too short: " ++ toString buf.length ++ " bytes"))
  else if buf.take 4 ≠ frameMagic then
    .error (.schemaError ("bad magic in canonical frame: " ++ reprBytes (buf.take 4)))
  else do
    let schema <- unpackFrom 2 buf 4
    if schema ≠ canonicalSchemaVersion then
      .error (.schemaError ("canonical schema version mismatch: " ++ toString schema ++
        " vs " ++ toString canonicalSchemaVersion))
    else
      let identityLen <- unpackFrom 4 buf 10
      let identityEnd := headerLen + identityLen
      if identityEnd + 8 > buf.length then
        .error (.corruptPayloadError "identity length extends past frame")
      else
        let identity <- parseIdentity phi (slice buf headerLen identityEnd)
        let payload <- parsePayload buf identityEnd
        return (identity, payload)

end Codec

/-!
# The parts of a frame
-/

structure FrameParts where
  reserved : Nat
  text : Bytes
  payloadLen : Nat
  rest : Bytes
  reserved_lt : reserved < 256 ^ 4
  text_lt : text.length < 256 ^ 4
  payloadLen_lt : payloadLen < 256 ^ 8

def FrameParts.bytes (parts : FrameParts) : Bytes :=
  frameMagic ++ (littleEndian 2 canonicalSchemaVersion ++ (littleEndian 4 parts.reserved ++
    (littleEndian 4 parts.text.length ++ (parts.text ++ (littleEndian 8 parts.payloadLen ++
      parts.rest)))))

theorem unpackFrom_of_drop {buf front : Bytes} {width offset n : Nat}
    (hbuf : offset + width ≤ buf.length)
    (hdrop : (buf.drop offset) = littleEndian width n ++ front) (hn : n < 256 ^ width) :
    unpackFrom width buf offset = .ok n := by
  unfold unpackFrom
  rw [if_pos hbuf, hdrop, List.take_left' (length_littleEndian width n),
    ofLittleEndian_littleEndian hn]

theorem exists_unpackFrom {buf : Bytes} (width offset : Nat) (h : offset + width ≤ buf.length) :
    exists n, n < 256 ^ width ∧ unpackFrom width buf offset = .ok n ∧
      buf.drop offset = littleEndian width n ++ buf.drop (offset + width) := by
  have hlength : ((buf.drop offset).take width).length = width := by
    rw [List.length_take_of_le]
    rw [List.length_drop]
    omega
  have hlt := ofLittleEndian_lt ((buf.drop offset).take width)
  have hback := littleEndian_ofLittleEndian ((buf.drop offset).take width)
  rw [hlength] at hlt hback
  refine ⟨_, hlt, if_pos h, ?_⟩
  rw [hback, ← List.drop_drop, List.take_append_drop]

namespace FrameParts

variable (parts : FrameParts)

theorem length_bytes : parts.bytes.length =
    headerLen + parts.text.length + 8 + parts.rest.length := by
  unfold bytes
  simp only [List.length_append, length_littleEndian]
  show 4 + _ = 14 + _ + 8 + _
  omega

theorem drop_four : parts.bytes.drop 4 =
    littleEndian 2 canonicalSchemaVersion ++ (littleEndian 4 parts.reserved ++
      (littleEndian 4 parts.text.length ++ (parts.text ++ (littleEndian 8 parts.payloadLen ++
        parts.rest)))) :=
  List.drop_left' rfl

theorem drop_ten : parts.bytes.drop 10 =
    littleEndian 4 parts.text.length ++ (parts.text ++ (littleEndian 8 parts.payloadLen ++
      parts.rest)) := by
  have hsplit : parts.bytes.drop 10 = (parts.bytes.drop 4).drop 6 := by
    rw [List.drop_drop]
  rw [hsplit, drop_four, ← List.append_assoc]
  apply List.drop_left'
  rw [List.length_append, length_littleEndian, length_littleEndian]

theorem drop_text : parts.bytes.drop (headerLen + parts.text.length) =
    littleEndian 8 parts.payloadLen ++ parts.rest := by
  rw [← List.drop_drop]
  exact List.drop_left' rfl

theorem drop_payloadLen : parts.bytes.drop (headerLen + parts.text.length + 8) =
    parts.rest := by
  rw [← List.drop_drop, drop_text]
  exact List.drop_left' (length_littleEndian 8 _)

theorem ext_of_bytes {parts others : FrameParts}
    (h : parts.bytes = others.bytes) : parts = others := by
  have hten := congrArg (List.drop 10) h
  rw [parts.drop_ten, others.drop_ten] at hten
  have hlengths := List.append_inj hten (by rw [length_littleEndian, length_littleEndian])
  have htextlength : parts.text.length = others.text.length :=
    littleEndian_injective parts.text_lt others.text_lt hlengths.left
  have htext := List.append_inj hlengths.right htextlength
  have hpayload := List.append_inj htext.right
    (by rw [length_littleEndian, length_littleEndian])
  have hpayloadLen : parts.payloadLen = others.payloadLen :=
    littleEndian_injective parts.payloadLen_lt others.payloadLen_lt hpayload.left
  have hfour := congrArg (List.drop 4) h
  rw [parts.drop_four, others.drop_four] at hfour
  have hsix := (List.append_inj hfour rfl).right
  have hreserved := (List.append_inj hsix
    (by rw [length_littleEndian, length_littleEndian])).left
  have hreserved : parts.reserved = others.reserved :=
    littleEndian_injective parts.reserved_lt others.reserved_lt hreserved
  cases parts
  cases others
  simp only at hreserved htext hpayloadLen hpayload
  simp only [hreserved, htext.left, hpayloadLen, hpayload.right]

end FrameParts

section Parsing

variable {phi : Type} [PyText phi] [JsonBytes phi]

theorem parseIdentity_of_members {identity : PayloadIdentity} {text : Bytes}
    {members : List (String × Json phi)} (hloads : JsonBytes.loads text = .ok (.dict members))
    (hmembers : members.Perm identity.members) :
    parseIdentity phi text = .ok identity := by
  rw [parseIdentity, hloads]
  show (PayloadIdentity.fromDict (.dict members)).mapError FrameError.raised = .ok identity
  rw [PayloadIdentity.fromDict_of_perm hmembers]
  rfl

variable [FrameDigest]

theorem parsePayload_bytes (parts : FrameParts) :
    parsePayload parts.bytes (headerLen + parts.text.length) =
      if parts.payloadLen + trailerLen > parts.rest.length then
        .error (.corruptPayloadError "payload length extends past frame")
      else if trailerOf (parts.rest.take parts.payloadLen) ≠
          (parts.rest.drop parts.payloadLen).take trailerLen then
        .error (.corruptPayloadError "canonical frame trailer mismatch")
      else .ok (parts.rest.take parts.payloadLen) := by
  have hlength := parts.length_bytes
  have hread : unpackFrom 8 parts.bytes (headerLen + parts.text.length) =
      .ok parts.payloadLen :=
    unpackFrom_of_drop (by omega) parts.drop_text parts.payloadLen_lt
  have hpayload : slice parts.bytes (headerLen + parts.text.length + 8)
      (headerLen + parts.text.length + 8 + parts.payloadLen) =
        parts.rest.take parts.payloadLen := by
    rw [slice, parts.drop_payloadLen, Nat.add_sub_cancel_left]
  have htrailer : slice parts.bytes
      (headerLen + parts.text.length + 8 + parts.payloadLen)
      (headerLen + parts.text.length + 8 + parts.payloadLen + trailerLen) =
        (parts.rest.drop parts.payloadLen).take trailerLen := by
    rw [slice, ← List.drop_drop, parts.drop_payloadLen, Nat.add_sub_cancel_left]
  have hroom : headerLen + parts.text.length + 8 + parts.payloadLen + trailerLen >
      parts.bytes.length <-> parts.payloadLen + trailerLen > parts.rest.length := by
    omega
  rw [parsePayload, hread, ok_bind]
  simp only [hpayload, htrailer]
  by_cases h : parts.payloadLen + trailerLen > parts.rest.length
  · rw [if_pos (hroom.mpr h), if_pos h]
  · rw [if_neg (fun hother => h (hroom.mp hother)), if_neg h]

theorem parseCanonical_bytes (parts : FrameParts) :
    parseCanonical phi parts.bytes = (do
      let identity <- parseIdentity phi parts.text
      let payload <- parsePayload parts.bytes (headerLen + parts.text.length)
      return (identity, payload)) := by
  have hlength := parts.length_bytes
  have hheader : headerLen = 14 := rfl
  have htrailer : trailerLen = 8 := rfl
  have hmagic : parts.bytes.take 4 = frameMagic := List.take_left' rfl
  have hschema : unpackFrom 2 parts.bytes 4 = .ok canonicalSchemaVersion :=
    unpackFrom_of_drop (by omega) parts.drop_four (by decide)
  have hlen : unpackFrom 4 parts.bytes 10 = .ok parts.text.length :=
    unpackFrom_of_drop (by omega) parts.drop_ten parts.text_lt
  have htext : slice parts.bytes headerLen (headerLen + parts.text.length) = parts.text := by
    rw [slice, Nat.add_sub_cancel_left]
    exact List.take_left' rfl
  rw [parseCanonical, if_neg (by omega), if_neg (not_not.mpr hmagic), hschema,
    ok_bind, if_neg (not_not.mpr rfl), hlen, ok_bind]
  simp only [htext]
  rw [if_neg (by omega)]

end Parsing

/-!
# Round trips
-/

section RoundTrips

variable {phi : Type} [JsonBytes phi]

variable (phi) in
/-- Reading the JSON text of an identity gives the members of its dictionary. -/
def IdentityRoundTrips : Prop :=
  forall identity : PayloadIdentity, exists members : List (String × Json phi),
    JsonBytes.loads (JsonBytes.dumps (identity.toDict : Json phi)) = .ok (.dict members) ∧
      members.Perm identity.members

variable [FrameDigest]

def FrameParts.ofPayload (text raw : Bytes) (htext : text.length < 256 ^ 4)
    (hraw : raw.length < 256 ^ 8) : FrameParts :=
  { reserved := 0
    text := text
    payloadLen := raw.length
    rest := raw ++ trailerOf raw
    reserved_lt := by decide
    text_lt := htext
    payloadLen_lt := hraw }

theorem length_trailerOf (payload : Bytes) : (trailerOf payload).length = trailerLen := by
  rw [trailerOf, List.length_take_of_le]
  rw [FrameDigest.length_sha256]
  decide

theorem canonicalize_eq {identity : PayloadIdentity} {raw : Bytes}
    (htext : (JsonBytes.dumps (identity.toDict : Json phi)).length < 256 ^ 4)
    (hraw : raw.length < 256 ^ 8) :
    canonicalize phi identity raw = .ok (FrameParts.ofPayload
      (JsonBytes.dumps (identity.toDict : Json phi)) raw htext hraw).bytes := by
  have hsmall : ¬ raw.length > 0xFFFFFFFFFFFFFFFF := by omega
  have hschema : structPack 2 canonicalSchemaVersion =
      .ok (littleEndian 2 canonicalSchemaVersion) := if_pos (by decide)
  have hreserved : structPack 4 0 = .ok (littleEndian 4 0) := if_pos (by decide)
  have hidentityLen : structPack 4 (JsonBytes.dumps (identity.toDict : Json phi)).length =
      .ok (littleEndian 4 _) := if_pos htext
  have hpayloadLen : structPack 8 raw.length = .ok (littleEndian 8 raw.length) := if_pos hraw
  rw [canonicalize, if_neg hsmall]
  simp only [hschema, hreserved, hidentityLen, hpayloadLen, ok_bind]
  show Except.ok _ = _
  simp only [FrameParts.bytes, FrameParts.ofPayload, List.append_assoc]

theorem parsePayload_ofPayload {text raw : Bytes} (htext : text.length < 256 ^ 4)
    (hraw : raw.length < 256 ^ 8) :
    parsePayload (FrameParts.ofPayload text raw htext hraw).bytes
      (headerLen + text.length) = .ok raw := by
  have hparse := parsePayload_bytes (FrameParts.ofPayload text raw htext hraw)
  have htake : (raw ++ trailerOf raw).take raw.length = raw := List.take_left' rfl
  have hdrop : (raw ++ trailerOf raw).drop raw.length = trailerOf raw := List.drop_left' rfl
  have hlength : ¬ raw.length + trailerLen > (raw ++ trailerOf raw).length := by
    rw [List.length_append, length_trailerOf]
    omega
  have htrailer : (trailerOf raw).take trailerLen = trailerOf raw :=
    List.take_of_length_le (le_of_eq (length_trailerOf raw))
  simp only [FrameParts.ofPayload, htake, hdrop, htrailer] at hparse
  rw [if_neg hlength, if_neg (not_not.mpr rfl)] at hparse
  exact hparse

variable [PyText phi]

/-- A frame parses as the identity and the payload it was made from.  The only
payload that is not framed is one whose length does not fit its field. -/
theorem parseCanonical_canonicalize (hjson : IdentityRoundTrips phi) (identity : PayloadIdentity)
    (htext : (JsonBytes.dumps (identity.toDict : Json phi)).length < 2 ^ 32) (raw : Bytes) :
    (raw.length < 2 ^ 64 -> exists frame, canonicalize phi identity raw = .ok frame ∧
      parseCanonical phi frame = .ok (identity, raw)) ∧
    (2 ^ 64 ≤ raw.length -> canonicalize phi identity raw = .error (.valueError
      ("payload too large to frame: " ++ toString raw.length ++ " bytes"))) := by
  constructor
  · intro hraw
    refine ⟨_, canonicalize_eq htext hraw, ?_⟩
    rcases hjson identity with ⟨members, hloads, hmembers⟩
    rw [parseCanonical_bytes]
    have hidentity := parseIdentity_of_members hloads hmembers
    show (parseIdentity phi (JsonBytes.dumps (identity.toDict : Json phi)) >>= _) = _
    rw [hidentity, ok_bind]
    show (parsePayload _ (headerLen +
      (JsonBytes.dumps (identity.toDict : Json phi)).length) >>= _) = _
    rw [parsePayload_ofPayload htext hraw]
    rfl
  · intro hraw
    exact if_pos (by omega)

end RoundTrips

/-!
# Identities written part by part
-/

def dtypePart : TextPart Dtype :=
  TextPart.text.via Dtype.name (fun name => (Dtype.ofName? name).getD .float16)
    (fun dtype => by rw [Dtype.ofName?_name]; rfl)

def rangePart : TextPart (Int × Int) :=
  TextPart.token.pair TextPart.token

def identityPart : TextPart PayloadIdentity :=
  (TextPart.text.pair (TextPart.text.pair (TextPart.text.pair (TextPart.text.pair
    (TextPart.text.pair (rangePart.pair (rangePart.pair (rangePart.pair
      (dtypePart.pair TextPart.token.many))))))))).via
    (fun i => (i.payloadHash, i.modelId, i.modelRevision, i.tokenizerName,
      i.tokenizerRevision, i.layerRange, i.headRange, i.tokenSpan, i.dtype, i.shape))
    (fun | (payloadHash, modelId, modelRevision, tokenizerName, tokenizerRevision,
            layerRange, headRange, tokenSpan, dtype, shape) =>
          (IdentityFields.construct
            { payloadHash, modelId, modelRevision, tokenizerName, tokenizerRevision,
              layerRange, headRange, tokenSpan, dtype,
              shape }).toOption.getD (PayloadIdentity.plain "h" nonempty_h))
    (fun i => by
      show i.toIdentityFields.construct.toOption.getD _ = i
      rw [PayloadIdentity.construct_toIdentityFields]
      rfl)

attribute [local instance] PyText.whole

@[reducible] def JsonBytes.parts : JsonBytes Int where
  dumps value :=
    match PayloadIdentity.fromDict value with
    | .ok identity => identityPart.write identity
    | .error _ => []
  loads data :=
    match identityPart.read data with
    | some (identity, []) => .ok identity.toDict
    | _ => .error .jsonDecodeError

@[reducible] def FrameDigest.constant : FrameDigest where
  sha256 _ := List.replicate 32 0
  length_sha256 _ := List.length_replicate

attribute [local instance] JsonBytes.parts FrameDigest.constant

theorem loads_identityPart (identity : PayloadIdentity) :
    JsonBytes.loads (identityPart.write identity) = .ok (identity.toDict : Json Int) := by
  have hread := identityPart.read_write identity []
  rw [List.append_nil] at hread
  show (match identityPart.read (identityPart.write identity) with
    | some (identity, []) => Except.ok identity.toDict
    | _ => .error DecodeFailure.jsonDecodeError) = _
  rw [hread]

theorem parts_roundTrips : IdentityRoundTrips Int := by
  intro identity
  refine ⟨identity.members, ?_, List.Perm.refl _⟩
  have hfrom : PayloadIdentity.fromDict (identity.toDict : Json Int) = .ok identity :=
    PayloadIdentity.fromDict_of_perm (List.Perm.refl _)
  have hdumps : JsonBytes.dumps (identity.toDict : Json Int) =
      identityPart.write identity := by
    show (match PayloadIdentity.fromDict (identity.toDict : Json Int) with
      | .ok identity => identityPart.write identity
      | .error _ => []) = _
    rw [hfrom]
  rw [hdumps]
  exact loads_identityPart identity

/-- A payload that itself begins with the magic number. -/
theorem frameMagic_parses :
    exists frame, canonicalize Int (PayloadIdentity.plain "h" nonempty_h) frameMagic = .ok frame ∧
      parseCanonical Int frame = .ok (PayloadIdentity.plain "h" nonempty_h, frameMagic) :=
  (parseCanonical_canonicalize parts_roundTrips (PayloadIdentity.plain "h" nonempty_h)
    (by decide +kernel) frameMagic).left (by decide)

end Store
end Membrane
