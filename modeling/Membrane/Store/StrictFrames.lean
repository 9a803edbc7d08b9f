import Membrane.Store.CanonicalFrame

/-!
# Which buffers are parsed strictly

The parser reads a frame from the front.  It skips the reserved field, does not
look behind the trailer, and hands the identity section to the JSON decoder and
the identity's constructor, whose exceptions it lets through.
-/

namespace Membrane
namespace Store

open Foundation Data

def FrameError.Reported : FrameError -> Prop
  | .schemaError _ => True
  | .corruptPayloadError _ => True
  | _ => False

section Header

variable {phi : Type} [PyText phi] [JsonBytes phi]

theorem parseIdentity_not_reported {text : Bytes} {e : FrameError}
    (h : parseIdentity phi text = .error e) : ¬ e.Reported := by
  rw [parseIdentity] at h
  cases hloads : (JsonBytes.loads text : Except DecodeFailure (Json phi)) with
  | error failure =>
    rw [hloads] at h
    cases h
    exact id
  | ok value =>
    rw [hloads] at h
    have h : (PayloadIdentity.fromDict value).mapError FrameError.raised = .error e := h
    cases hfrom : PayloadIdentity.fromDict value with
    | error error =>
      rw [hfrom] at h
      cases h
      exact id
    | ok identity =>
      rw [hfrom] at h
      cases h

variable [FrameDigest]

variable (phi) in
theorem exists_parts_or_reported (buf : Bytes) :
    (exists parts : FrameParts, buf = parts.bytes) ∨
      exists e, parseCanonical phi buf = .error e ∧ e.Reported := by
  by_cases hshort : buf.length < headerLen + trailerLen
  · exact Or.inr ⟨_, if_pos hshort, trivial⟩
  by_cases hmagic : buf.take 4 ≠ frameMagic
  · exact Or.inr ⟨_, (if_neg hshort).trans (if_pos hmagic), trivial⟩
  have hheader : headerLen = 14 := rfl
  have hlength : 22 ≤ buf.length := Nat.le_of_not_lt hshort
  rcases exists_unpackFrom 2 4 (show 4 + 2 ≤ buf.length by omega) with
    ⟨schema, _, hschemaread, hfour⟩
  rcases exists_unpackFrom 4 6 (show 6 + 4 ≤ buf.length by omega) with
    ⟨reserved, hreserved, _, hsix⟩
  rcases exists_unpackFrom 4 10 (show 10 + 4 ≤ buf.length by omega) with
    ⟨identityLen, hidentityLen, hlenread, hten⟩
  by_cases hschema : schema ≠ canonicalSchemaVersion
  · right
    rw [parseCanonical, if_neg hshort, if_neg hmagic, hschemaread, ok_bind, if_pos hschema]
    exact ⟨_, rfl, trivial⟩
  by_cases hroom : headerLen + identityLen + 8 > buf.length
  · right
    rw [parseCanonical, if_neg hshort, if_neg hmagic, hschemaread, ok_bind, if_neg hschema,
      hlenread]
    exact ⟨_, if_pos hroom, trivial⟩
  left
  rcases exists_unpackFrom 8 (14 + identityLen)
    (show 14 + identityLen + 8 ≤ buf.length by omega) with
    ⟨payloadLen, hpayloadLen, _, hpayload⟩
  have htext : ((buf.drop 14).take identityLen).length = identityLen := by
    rw [List.length_take_of_le]
    rw [List.length_drop]
    omega
  have hfourteen : buf.drop 14 =
      (buf.drop 14).take identityLen ++ buf.drop (14 + identityLen) := by
    rw [← List.drop_drop, List.take_append_drop]
  refine ⟨⟨reserved, (buf.drop 14).take identityLen, payloadLen,
    buf.drop (14 + identityLen + 8), hreserved, by rw [htext]; exact hidentityLen,
    hpayloadLen⟩, ?_⟩
  show buf = frameMagic ++ (littleEndian 2 canonicalSchemaVersion ++
    (littleEndian 4 reserved ++ (littleEndian 4 ((buf.drop 14).take identityLen).length ++
      ((buf.drop 14).take identityLen ++ (littleEndian 8 payloadLen ++
        buf.drop (14 + identityLen + 8))))))
  rw [← hpayload, ← hfourteen, htext, ← hten, ← hsix, ← not_not.mp hschema, ← hfour,
    ← not_not.mp hmagic, List.take_append_drop]
end Header

section Strict

variable {phi : Type} [JsonBytes phi]

variable (phi) in
def IdentityText (text : Bytes) (identity : PayloadIdentity) : Prop :=
  exists members : List (String × Json phi),
    JsonBytes.loads text = .ok (.dict members) ∧ members.Perm identity.members

variable [FrameDigest]

variable (phi) in
def IsFrame (buf : Bytes) (identity : PayloadIdentity) (raw : Bytes) : Prop :=
  exists parts : FrameParts, buf = parts.bytes ∧ parts.reserved = 0 ∧
    IdentityText phi parts.text identity ∧ parts.payloadLen = raw.length ∧
    parts.rest = raw ++ trailerOf raw

def FrameParts.Intact (parts : FrameParts) : Prop :=
  parts.payloadLen + trailerLen ≤ parts.rest.length ∧
    trailerOf (parts.rest.take parts.payloadLen) =
      (parts.rest.drop parts.payloadLen).take trailerLen

variable {parts : FrameParts}

theorem isFrame_iff_of_intact {identity : PayloadIdentity} (hintact : parts.Intact) :
    IsFrame phi parts.bytes identity (parts.rest.take parts.payloadLen) <->
      IdentityText phi parts.text identity ∧ parts.reserved = 0 ∧
        parts.rest.length = parts.payloadLen + trailerLen := by
  have hpayload : (parts.rest.take parts.payloadLen).length = parts.payloadLen :=
    List.length_take_of_le (Nat.le_trans (Nat.le_add_right _ _) hintact.left)
  constructor
  · rintro ⟨others, hbytes, hreserved, htext, _, hrest⟩
    rw [← FrameParts.ext_of_bytes hbytes] at hreserved htext hrest
    have hlength := congrArg List.length hrest
    rw [List.length_append, length_trailerOf, hpayload] at hlength
    exact ⟨htext, hreserved, hlength⟩
  · rintro ⟨htext, hreserved, hlength⟩
    refine ⟨parts, rfl, hreserved, htext, hpayload.symm, ?_⟩
    have hdrop : (parts.rest.drop parts.payloadLen).length ≤ trailerLen := by
      rw [List.length_drop]
      omega
    rw [hintact.right, List.take_of_length_le hdrop, List.take_append_drop]

variable [PyText phi]

variable (phi) in
/-- The parser answers what is in the frame, or reports the buffer. -/
def ParsedStrictly (buf : Bytes) : Prop :=
  match parseCanonical phi buf with
  | .ok (identity, raw) => IsFrame phi buf identity raw
  | .error e => e.Reported

variable (phi) in
/-- The identity section reads as an identity.  If the payload is intact as well,
the section is that identity's dictionary, the reserved field is zero and the
buffer ends with the trailer. -/
def FrameParts.Clean (parts : FrameParts) : Prop :=
  exists identity, parseIdentity phi parts.text = .ok identity ∧
    (parts.Intact -> IdentityText phi parts.text identity ∧ parts.reserved = 0 ∧
      parts.rest.length = parts.payloadLen + trailerLen)

/-!
# The parser's answer from the parts
-/

theorem parsePayload_of_intact (h : parts.Intact) :
    parsePayload parts.bytes (headerLen + parts.text.length) =
      .ok (parts.rest.take parts.payloadLen) := by
  rw [parsePayload_bytes, if_neg (Nat.not_lt.mpr h.left), if_neg (not_not.mpr h.right)]

theorem parsePayload_of_not_intact (h : ¬ parts.Intact) :
    exists e, parsePayload parts.bytes (headerLen + parts.text.length) = .error e ∧
      e.Reported := by
  rw [parsePayload_bytes]
  by_cases hroom : parts.payloadLen + trailerLen > parts.rest.length
  · exact ⟨_, if_pos hroom, trivial⟩
  · have htrailer : trailerOf (parts.rest.take parts.payloadLen) ≠
        (parts.rest.drop parts.payloadLen).take trailerLen := by
      intro htrailer
      exact h ⟨Nat.le_of_not_lt hroom, htrailer⟩
    exact ⟨_, (if_neg hroom).trans (if_pos htrailer), trivial⟩

theorem parsedStrictly_bytes (parts : FrameParts) :
    ParsedStrictly phi parts.bytes <-> parts.Clean phi := by
  rw [ParsedStrictly, parseCanonical_bytes, FrameParts.Clean]
  cases hidentity : parseIdentity phi parts.text with
  | error e =>
    constructor
    · intro hreported
      exact absurd hreported (parseIdentity_not_reported hidentity)
    · rintro ⟨identity, hok, _⟩
      cases hok
  | ok identity =>
    rw [ok_bind]
    by_cases hintact : parts.Intact
    · rw [parsePayload_of_intact hintact]
      show IsFrame phi parts.bytes identity (parts.rest.take parts.payloadLen) <-> _
      rw [isFrame_iff_of_intact hintact]
      constructor
      · intro h
        exact ⟨identity, rfl, fun _ => h⟩
      · rintro ⟨other, hother, h⟩
        cases hother
        exact h hintact
    · rcases parsePayload_of_not_intact hintact with ⟨e, he, hreported⟩
      rw [he]
      constructor
      · intro _
        exact ⟨identity, rfl, fun h => absurd h hintact⟩
      · intro _
        exact hreported

theorem not_parsedStrictly_of_layout (hintact : parts.Intact)
    (h : ¬ (parts.reserved = 0 ∧ parts.rest.length = parts.payloadLen + trailerLen)) :
    ¬ ParsedStrictly phi parts.bytes := by
  intro hstrict
  rcases (parsedStrictly_bytes parts).mp hstrict with ⟨identity, _, hclean⟩
  exact h (hclean hintact).right

end Strict

/-!
# Loose frames
-/

section Loose

attribute [local instance] PyText.whole JsonBytes.parts FrameDigest.constant

theorem parseIdentity_identityPart (identity : PayloadIdentity) :
    parseIdentity Int (identityPart.write identity) = .ok identity :=
  parseIdentity_of_members (loads_identityPart identity) (List.Perm.refl _)

def plainIdentity : PayloadIdentity := PayloadIdentity.plain "h" nonempty_h

theorem length_plainIdentity : (identityPart.write plainIdentity).length < 256 ^ 4 := by
  decide +kernel

def emptyParts (reserved : Nat) (rest : Bytes) (h : reserved < 256 ^ 4) : FrameParts :=
  { reserved := reserved
    text := identityPart.write plainIdentity
    payloadLen := 0
    rest := rest
    reserved_lt := h
    text_lt := length_plainIdentity
    payloadLen_lt := by decide }

theorem length_section : ([1] : Bytes).length < 256 ^ 4 := by decide

theorem zero_lt_reserved : 0 < 256 ^ 4 := by decide

theorem zero_lt_payloadLen : 0 < 256 ^ 8 := by decide

def undecodableParts : FrameParts :=
  { reserved := 0
    text := [1]
    payloadLen := 0
    rest := []
    reserved_lt := zero_lt_reserved
    text_lt := length_section
    payloadLen_lt := zero_lt_payloadLen }

theorem parseCanonical_emptyParts {reserved : Nat} {rest : Bytes}
    (h : reserved < 256 ^ 4) (hintact : (emptyParts reserved rest h).Intact) :
    parseCanonical Int (emptyParts reserved rest h).bytes = .ok (plainIdentity, []) := by
  rw [parseCanonical_bytes, parsePayload_of_intact hintact]
  show (parseIdentity Int (identityPart.write plainIdentity) >>= _) = _
  rw [parseIdentity_identityPart]
  rfl

theorem intact_reserved : (emptyParts 1 (List.replicate 8 0) (by decide)).Intact :=
  ⟨Nat.le_refl 8, rfl⟩

theorem intact_trailing : (emptyParts 0 (List.replicate 9 0) (by decide)).Intact :=
  ⟨Nat.le_succ 8, rfl⟩

end Loose

end Store
end Membrane
