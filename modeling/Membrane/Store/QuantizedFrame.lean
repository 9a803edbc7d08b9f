import Membrane.Store.PackedFields

/-!
# Quantized frames

A quantized payload is framed with its format, a scale in single precision, a zero point, and
the dtype and the shape of the tensor it was made from.  The frame ends with the first bytes
of the digest of what stands before them.
-/

namespace Membrane
namespace Store

open Foundation

def quantMagic : Bytes := [0x4D, 0x56, 0x51, 0x46]

def encodeUtf8 (s : String) : Bytes :=
  s.toUTF8.data.toList

def decodeUtf8 (data : Bytes) : Except FrameError String :=
  match String.fromUTF8? ⟨data.toArray⟩ with
  | some s => .ok s
  | none => .error (.undecodable .unicodeDecodeError)

theorem decodeUtf8_encodeUtf8 (s : String) : decodeUtf8 (encodeUtf8 s) = .ok s := by
  have hread : String.fromUTF8? s.toUTF8 = some s := dif_pos s.isValidUTF8
  unfold decodeUtf8 encodeUtf8
  rw [hread]

/-- The bits of a number in single precision. -/
abbrev Single := UInt32

def Single.Finite (scale : Single) : Prop :=
  scale.toNat / 2 ^ 23 % 256 ≠ 255

def Single.Negative (scale : Single) : Prop :=
  2 ^ 31 < scale.toNat ∧ scale.toNat ≤ 2 ^ 31 + 255 * 2 ^ 23

instance (scale : Single) : Decidable scale.Finite :=
  inferInstanceAs (Decidable (_ ≠ _))

instance (scale : Single) : Decidable scale.Negative :=
  inferInstanceAs (Decidable (_ ∧ _))

class SingleText where
  str : Single -> String

structure QuantizedFrame where
  formatId : Nat
  scale : Single
  zeroPoint : Int
  originalDtype : String
  originalShape : List Nat
  payload : Bytes
  deriving DecidableEq

def takeField (width : Nat) (data : Bytes) : Except FrameError (Bytes × Bytes) :=
  if data.length < width then .error .structError
  else .ok (data.take width, data.drop width)

theorem takeField_append {width : Nat} {field : Bytes} (h : field.length = width)
    (rest : Bytes) : takeField width (field ++ rest) = .ok (field, rest) := by
  unfold takeField
  rw [List.take_left' h, List.drop_left' h]
  refine if_neg ?_
  rw [List.length_append]
  omega

variable {shape : List Nat}

theorem mapM_structPack (h : forall d, d ∈ shape -> d < 2 ^ 32) :
    shape.mapM (structPack 4) = .ok (shape.map (littleEndian 4)) := by
  induction shape with
  | nil => rfl
  | cons d rest ih =>
    have hd : d < 256 ^ 4 := h d List.mem_cons_self
    have hfirst : structPack 4 d = .ok (littleEndian 4 d) := if_pos hd
    rw [List.mapM_cons, hfirst,
      ih (fun other hother => h other (List.mem_cons_of_mem d hother))]
    rfl

theorem lt_of_mapM_structPack {fields : List Bytes} (h : shape.mapM (structPack 4) = .ok fields)
    : forall d, d ∈ shape -> d < 2 ^ 32 := by
  induction shape generalizing fields with
  | nil =>
    intro d hd
    cases hd
  | cons d rest ih =>
    obtain ⟨field, others, hfield, hothers, _⟩ := mapM_cons_eq_ok h
    intro e he
    rcases List.mem_cons.mp he with rfl | he
    · exact (structPack_eq_ok hfield).left
    · exact ih hothers e he

section Codec

variable [FrameDigest]

def QuantizedFrame.toBytes [SingleText] (f : QuantizedFrame) : Except FrameError Bytes :=
  let dtypeBytes := encodeUtf8 f.originalDtype
  if dtypeBytes.length > 255 then
    .error (.valueError "dtype string too long for wire format")
  else if f.originalShape.length > 255 then
    .error (.valueError "shape too long for wire format")
  else if f.scale.Negative ∨ ¬ f.scale.Finite then
    .error (.valueError ("invalid scale: " ++ SingleText.str f.scale))
  else if ¬ SignedRange 4 f.zeroPoint then
    .error (.valueError ("zero_point out of range: " ++ toString f.zeroPoint))
  else do
    let formatId <- structPack 1 f.formatId
    let zeroPoint <- packSigned 4 f.zeroPoint
    let dtypeLen <- structPack 1 dtypeBytes.length
    let shapeCount <- structPack 1 f.originalShape.length
    let shape <- f.originalShape.mapM (structPack 4)
    let framed := quantMagic ++ (formatId ++ ([0, 0, 0] ++ (littleEndian 4 f.scale.toNat ++
      (zeroPoint ++ (dtypeLen ++ (dtypeBytes ++ (shapeCount ++ (shape.flatten ++
        f.payload))))))))
    return framed ++ trailerOf framed

/-- What is read behind the dtype, from the field that counts the dimensions on. -/
def readShape (frame data : Bytes) : Except FrameError (List Nat × Bytes) := do
  let (shapeCount, rest) <- takeField 1 data
  let count := ofLittleEndian shapeCount
  if rest.length < 4 * count + trailerLen then
    .error (.valueError "quantized frame too short")
  else
    let body := rest.drop (4 * count)
    let framed := frame.take (frame.length - trailerLen)
    if trailerOf framed ≠ body.drop (body.length - trailerLen) then
      .error (.valueError "quantized frame trailer mismatch")
    else
      .ok ((cut 4 count rest).map ofLittleEndian, body.take (body.length - trailerLen))

def QuantizedFrame.fromBytes (frame : Bytes) : Except FrameError QuantizedFrame :=
  if ¬ quantMagic.isPrefixOf frame then
    .error (.valueError "bad magic in quantized frame")
  else if frame.length < 4 + 1 + 3 + 4 + 4 + 1 + 1 then
    .error (.valueError "quantized frame too short")
  else do
    let (formatId, rest) <- takeField 1 (frame.drop 4)
    let (scale, rest) <- takeField 4 (rest.drop 3)
    let (zeroPoint, rest) <- takeField 4 rest
    let (dtypeLen, rest) <- takeField 1 rest
    let dtype <- decodeUtf8 (rest.take (ofLittleEndian dtypeLen))
    let (shape, payload) <- readShape frame (rest.drop (ofLittleEndian dtypeLen))
    return ⟨ofLittleEndian formatId, UInt32.ofNat (ofLittleEndian scale),
      unpackSigned zeroPoint, dtype, shape, payload⟩

/-!
# Reading a frame back
-/

structure QuantizedFrame.Fits (f : QuantizedFrame) : Prop where
  formatId : f.formatId < 256
  zeroPoint : SignedRange 4 f.zeroPoint
  dtype : (encodeUtf8 f.originalDtype).length ≤ 255
  count : f.originalShape.length ≤ 255
  shape : forall d, d ∈ f.originalShape -> d < 2 ^ 32

def QuantizedFrame.framed (f : QuantizedFrame) : Bytes :=
  quantMagic ++ (littleEndian 1 f.formatId ++ ([0, 0, 0] ++ (littleEndian 4 f.scale.toNat ++
    (signedField 4 f.zeroPoint ++ (littleEndian 1 (encodeUtf8 f.originalDtype).length ++
      (encodeUtf8 f.originalDtype ++ (littleEndian 1 f.originalShape.length ++
        ((f.originalShape.map (littleEndian 4)).flatten ++ f.payload))))))))

variable {f : QuantizedFrame}

theorem QuantizedFrame.toBytes_of_fits [SingleText] (h : f.Fits)
    (hscale : f.scale.Finite ∧ ¬ f.scale.Negative) :
    f.toBytes = .ok (f.framed ++ trailerOf f.framed) := by
  have hdtype : (encodeUtf8 f.originalDtype).length < 256 ^ 1 := by
    have hle := h.dtype
    omega
  have hcount : f.originalShape.length < 256 ^ 1 := by
    have hle := h.count
    omega
  have hformat : f.formatId < 256 ^ 1 := h.formatId
  unfold toBytes structPack
  rw [if_neg (Nat.not_lt.mpr h.dtype), if_neg (Nat.not_lt.mpr h.count),
    if_neg (fun hbad => hbad.elim hscale.right (fun hinf => hinf hscale.left)),
    if_neg (not_not_intro h.zeroPoint), if_pos hformat, packSigned_of_range h.zeroPoint,
    if_pos hdtype, if_pos hcount]
  show (f.originalShape.mapM (structPack 4) >>= _) = _
  rw [mapM_structPack h.shape]
  rfl

theorem QuantizedFrame.shape_of_toBytes [SingleText] {data : Bytes} (h : f.toBytes = .ok data) :
    f.originalShape.length ≤ 255 ∧ forall d, d ∈ f.originalShape -> d < 2 ^ 32 := by
  unfold toBytes at h
  simp only [] at h
  split at h
  · cases h
  · split at h
    · cases h
    next hcount =>
        split at h
        · cases h
        · split at h
          · cases h
          · obtain ⟨_, _, h⟩ := bind_eq_ok_iff.mp h
            obtain ⟨_, _, h⟩ := bind_eq_ok_iff.mp h
            obtain ⟨_, _, h⟩ := bind_eq_ok_iff.mp h
            obtain ⟨_, _, h⟩ := bind_eq_ok_iff.mp h
            obtain ⟨_, hshape, _⟩ := bind_eq_ok_iff.mp h
            exact ⟨Nat.le_of_not_lt hcount, lt_of_mapM_structPack hshape⟩

theorem readShape_append {framed payload : Bytes} (hshape : forall d, d ∈ shape -> d < 2 ^ 32)
    (hcount : shape.length < 256 ^ 1) :
    readShape (framed ++ trailerOf framed) (littleEndian 1 shape.length ++
        ((shape.map (littleEndian 4)).flatten ++ (payload ++ trailerOf framed))) =
      .ok (shape, payload) := by
  have hwords : forall word, word ∈ shape.map (littleEndian 4) -> word.length = 4 := by
    intro word hword
    obtain ⟨d, _, rfl⟩ := List.mem_map.mp hword
    exact length_littleEndian 4 d
  have hlength : (shape.map (littleEndian 4)).flatten.length = 4 * shape.length := by
    rw [List.length_flatten, List.map_congr_left hwords, List.map_const',
      List.sum_replicate_nat, List.length_map, Nat.mul_comm]
  have hcut := cut_flatten hwords (payload ++ trailerOf framed)
  rw [List.length_map] at hcut
  have hback : (shape.map (littleEndian 4)).map ofLittleEndian = shape := by
    rw [List.map_map]
    refine (List.map_congr_left ?_).trans (List.map_id shape)
    intro d hd
    have hlt : d < 256 ^ 4 := hshape d hd
    exact ofLittleEndian_littleEndian hlt
  have htrailer := length_trailerOf framed
  have htake : (framed ++ trailerOf framed).take
      ((framed ++ trailerOf framed).length - trailerLen) = framed := by
    rw [List.length_append, htrailer]
    exact List.take_left' rfl
  have hbody : (payload ++ trailerOf framed).length - trailerLen = payload.length := by
    rw [List.length_append, htrailer, Nat.add_sub_cancel]
  unfold readShape
  rw [takeField_append (length_littleEndian 1 _), ok_bind]
  simp only [ofLittleEndian_littleEndian hcount, htake, hcut, hback, List.drop_left' hlength,
    hbody, List.drop_left' rfl, List.take_left' rfl]
  rw [if_neg, if_neg (not_not_intro rfl)]
  rw [List.length_append, List.length_append, htrailer]
  omega

theorem QuantizedFrame.fromBytes_framed (h : f.Fits) :
    fromBytes (f.framed ++ trailerOf f.framed) = .ok f := by
  have hmagic : quantMagic.isPrefixOf (f.framed ++ trailerOf f.framed) := by
    exact List.isPrefixOf_iff_prefix.mpr (List.prefix_append _ _)
  have hdtype : (encodeUtf8 f.originalDtype).length < 256 ^ 1 := by
    have hle := h.dtype
    omega
  have hcount : f.originalShape.length < 256 ^ 1 := by
    have hle := h.count
    omega
  have hscale : f.scale.toNat < 256 ^ 4 := f.scale.toNat_lt
  have hformat : f.formatId < 256 ^ 1 := h.formatId
  have hlength : ¬ (f.framed ++ trailerOf f.framed).length < 4 + 1 + 3 + 4 + 4 + 1 + 1 := by
    unfold framed
    simp only [List.length_append, length_littleEndian, length_signedField]
    show ¬ 4 + (1 + (3 + _)) + _ < _
    omega
  have hdrop : (f.framed ++ trailerOf f.framed).drop 4 = littleEndian 1 f.formatId ++
      ([0, 0, 0] ++ (littleEndian 4 f.scale.toNat ++ (signedField 4 f.zeroPoint ++
        (littleEndian 1 (encodeUtf8 f.originalDtype).length ++ (encodeUtf8 f.originalDtype ++
          (littleEndian 1 f.originalShape.length ++
            ((f.originalShape.map (littleEndian 4)).flatten ++
              (f.payload ++ trailerOf f.framed)))))))) := by
    conv =>
      lhs
      unfold framed
    simp only [List.append_assoc]
    exact List.drop_left' rfl
  have hthree : ([0, 0, 0] : Bytes).length = 3 := rfl
  unfold fromBytes
  rw [if_neg (not_not_intro hmagic), if_neg hlength, hdrop,
    takeField_append (length_littleEndian 1 _), ok_bind]
  simp only [List.drop_left' hthree]
  rw [takeField_append (length_littleEndian 4 _), ok_bind]
  rw [takeField_append (length_signedField 4 _), ok_bind]
  rw [takeField_append (length_littleEndian 1 _), ok_bind]
  simp only [ofLittleEndian_littleEndian hdtype, List.take_left' rfl, List.drop_left' rfl]
  rw [decodeUtf8_encodeUtf8, readShape_append h.shape hcount]
  simp only [ofLittleEndian_littleEndian hformat, ofLittleEndian_littleEndian hscale,
    unpackSigned_signedField h.zeroPoint, UInt32.ofNat_toNat]
  rfl

end Codec

/-!
# Codes of four bits
-/

def codeByte (code : Fin 16) : UInt8 :=
  UInt8.ofNat code.val

def packPair (high low : Fin 16) : UInt8 :=
  (codeByte high <<< 4) ||| codeByte low

def packPairs : List (Fin 16) -> Bytes
  | high :: low :: rest => packPair high low :: packPairs rest
  | _ => []

def packCodes (row : List (Fin 16)) : Bytes :=
  packPairs (if row.length % 2 = 1 then row ++ [0] else row)

def highHalf (b : UInt8) : UInt8 := (b >>> 4) &&& 0xF

def lowHalf (b : UInt8) : UInt8 := b &&& 0xF

def unpackedCode (nCols : Nat) (packed : Bytes) (position : Nat) : UInt8 :=
  if nCols % 2 = 1 ∧ position + 1 = nCols then (packed.map highHalf).getLastD 0
  else if position % 2 = 0 then (packed.map highHalf).getD (position / 2) 0
  else (packed.map lowHalf).getD (position / 2) 0

def unpackCodes (nCols : Nat) (packed : Bytes) : List UInt8 :=
  (List.range nCols).map (unpackedCode nCols packed)

def packMatrix (codes : List (List (Fin 16))) : Bytes :=
  (codes.map packCodes).flatten

def unpackMatrix (nRows nCols : Nat) (data : Bytes) : List (List UInt8) :=
  (cut ((nCols + 1) / 2) nRows data).map (unpackCodes nCols)

theorem halves_packPair (high low : Fin 16) :
    highHalf (packPair high low) = codeByte high ∧
      lowHalf (packPair high low) = codeByte low := by
  revert high low
  decide

theorem length_packPairs (codes : List (Fin 16)) :
    (packPairs codes).length = codes.length / 2 := by
  fun_induction packPairs codes with
  | case1 high low rest ih =>
    simp only [List.length_cons, ih]
    omega
  | case2 codes hshort =>
    cases codes with
    | nil => rfl
    | cons code rest =>
      cases rest with
      | nil => exact (Nat.div_eq_of_lt Nat.one_lt_two).symm
      | cons other rest => exact absurd rfl (hshort code other rest)

theorem getElem?_packPairs {codes : List (Fin 16)} {i : Nat} (h : 2 * i + 1 < codes.length) :
    exists high low, codes[2 * i]? = some high ∧ codes[2 * i + 1]? = some low ∧
      (packPairs codes)[i]? = some (packPair high low) := by
  induction i generalizing codes with
  | zero =>
    match codes, h with
    | high :: low :: rest, _ => exact ⟨high, low, rfl, rfl, rfl⟩
  | succ i ih =>
    match codes, h with
    | high :: low :: rest, h =>
      have hrest : 2 * i + 1 < rest.length := by
        simp only [List.length_cons] at h
        omega
      exact ih hrest

/-- The byte of a position holds its code, in the half of its parity. -/
theorem packCodes_position {row : List (Fin 16)} {position : Nat} {code : Fin 16}
    (h : row[position]? = some code) :
    exists b, (packCodes row)[position / 2]? = some b ∧
      (if position % 2 = 0 then highHalf b else lowHalf b) = codeByte code := by
  have hlt := (List.getElem?_eq_some_iff.mp h).choose
  unfold packCodes
  generalize hpadded : (if row.length % 2 = 1 then row ++ [0] else row) = padded
  have hcode : padded[position]? = some code := by
    subst hpadded
    split
    · rw [List.getElem?_append_left hlt]
      exact h
    · exact h
  have hpair : 2 * (position / 2) + 1 < padded.length := by
    subst hpadded
    split
    · rw [List.length_append, List.length_singleton]
      omega
    · omega
  obtain ⟨high, low, hhigh, hlow, hbyte⟩ := getElem?_packPairs hpair
  refine ⟨_, hbyte, ?_⟩
  split_ifs
  · rw [(halves_packPair high low).left]
    have hposition : 2 * (position / 2) = position := by omega
    rw [hposition, hcode] at hhigh
    cases hhigh
    rfl
  · rw [(halves_packPair high low).right]
    have hposition : 2 * (position / 2) + 1 = position := by omega
    rw [hposition, hcode] at hlow
    cases hlow
    rfl

theorem length_packCodes (row : List (Fin 16)) :
    (packCodes row).length = (row.length + 1) / 2 := by
  unfold packCodes
  rw [length_packPairs]
  split
  · rw [List.length_append, List.length_singleton]
  · omega

theorem unpackCodes_packCodes (row : List (Fin 16)) :
    unpackCodes row.length (packCodes row) = row.map codeByte := by
  apply List.ext_getElem?
  intro position
  unfold unpackCodes
  rw [List.getElem?_map, List.getElem?_map]
  cases hcode : row[position]? with
  | none =>
    have hge := List.getElem?_eq_none_iff.mp hcode
    rw [List.getElem?_eq_none (by rw [List.length_range]; exact hge)]
    rfl
  | some code =>
    have hlt := (List.getElem?_eq_some_iff.mp hcode).choose
    obtain ⟨b, hb, hhalf⟩ := packCodes_position hcode
    rw [List.getElem?_range hlt, Option.map_some, Option.map_some, unpackedCode]
    have hhigh : ((packCodes row).map highHalf)[position / 2]? = some (highHalf b) := by
      rw [List.getElem?_map, hb, Option.map_some]
    have hlow : ((packCodes row).map lowHalf)[position / 2]? = some (lowHalf b) := by
      rw [List.getElem?_map, hb, Option.map_some]
    split
    next hlast =>
        have heven : position % 2 = 0 := by omega
        have hindex : ((packCodes row).map highHalf).length - 1 = position / 2 := by
          rw [List.length_map, length_packCodes]
          omega
        rw [if_pos heven] at hhalf
        rw [List.getLastD_eq_getLast?, List.getLast?_eq_getElem?, hindex, hhigh,
          Option.getD_some, hhalf]
    next hinner =>
        rw [List.getD_eq_getElem?_getD, List.getD_eq_getElem?_getD, hhigh, hlow,
          Option.getD_some, Option.getD_some, hhalf]

theorem unpackMatrix_packMatrix {codes : List (List (Fin 16))} {nCols : Nat}
    (h : forall row, row ∈ codes -> row.length = nCols) :
    unpackMatrix codes.length nCols (packMatrix codes) = codes.map (List.map codeByte) := by
  have hwidth : forall part, part ∈ codes.map packCodes -> part.length = (nCols + 1) / 2 := by
    intro part hpart
    obtain ⟨row, hrow, rfl⟩ := List.mem_map.mp hpart
    rw [length_packCodes, h row hrow]
  have hcut := cut_flatten hwidth []
  rw [List.append_nil, List.length_map] at hcut
  unfold unpackMatrix packMatrix
  rw [hcut, List.map_map]
  apply List.map_congr_left
  intro row hrow
  rw [← h row hrow]
  exact unpackCodes_packCodes row

/-!
# Frames and codes that come back
-/

section RoundTrip

variable [FrameDigest] [SingleText]

theorem QuantizedFrame.toBytes_of_bad_scale {f : QuantizedFrame} (h : f.Fits)
    (hscale : f.scale.Negative ∨ ¬ f.scale.Finite) :
    f.toBytes = .error (.valueError ("invalid scale: " ++ SingleText.str f.scale)) := by
  unfold toBytes
  rw [if_neg (Nat.not_lt.mpr h.dtype), if_neg (Nat.not_lt.mpr h.count), if_pos hscale]

/-- A frame with a finite scale that is not negative is read back, and any other scale is
refused.  Every matrix of codes is read back. -/
theorem QuantizedFrame.roundTrip {f : QuantizedFrame} (h : f.Fits)
    {codes : List (List (Fin 16))} {nCols : Nat}
    (hwidth : forall row, row ∈ codes -> row.length = nCols) :
    (f.scale.Finite ∧ ¬ f.scale.Negative ->
      exists data, f.toBytes = .ok data ∧ fromBytes data = .ok f) ∧
      (f.scale.Negative ∨ ¬ f.scale.Finite ->
        f.toBytes = .error (.valueError ("invalid scale: " ++ SingleText.str f.scale))) ∧
      unpackMatrix codes.length nCols (packMatrix codes) = codes.map (List.map codeByte) :=
  ⟨fun hscale => ⟨_, toBytes_of_fits h hscale, fromBytes_framed h⟩,
    toBytes_of_bad_scale h, unpackMatrix_packMatrix hwidth⟩

end RoundTrip

section Sample

@[reducible] def SingleText.constant : SingleText where
  str _ := "-1.0"

attribute [local instance] SingleText.constant FrameDigest.constant

def sampleFrame (scale : Single) : QuantizedFrame :=
  { formatId := 1, scale := scale, zeroPoint := -3, originalDtype := "float16"
    originalShape := [2, 0], payload := [7] }

theorem fits_sampleFrame (scale : Single) : (sampleFrame scale).Fits where
  formatId := by
    show 1 < 256
    decide
  zeroPoint := by
    show SignedRange 4 (-3)
    decide
  dtype := by
    show (encodeUtf8 "float16").length ≤ 255
    decide
  count := by
    show 2 ≤ 255
    decide
  shape := by
    intro d hd
    simp only [sampleFrame, List.mem_cons, List.not_mem_nil, or_false] at hd
    rcases hd with rfl | rfl
    · decide
    · decide

/-- A negative scale is refused. -/
theorem QuantizedFrame.toBytes_negative :
    (sampleFrame 0xBF800000).Fits ∧ (sampleFrame 0xBF800000).toBytes =
      .error (.valueError "invalid scale: -1.0") := by
  refine ⟨fits_sampleFrame _, ?_⟩
  decide

theorem QuantizedFrame.roundTrip_sample :
    (exists data, (sampleFrame 0x3F800000).toBytes = .ok data ∧
        fromBytes data = .ok (sampleFrame 0x3F800000)) ∧
      unpackMatrix 2 3 (packMatrix [[1, 2, 15], [0, 4, 9]]) =
        [[1, 2, 15], [0, 4, 9]].map (List.map codeByte) := by
  have hscale : (sampleFrame 0x3F800000).scale.Finite ∧
      ¬ (sampleFrame 0x3F800000).scale.Negative := by
    decide
  have hwidth : forall row, row ∈ ([[1, 2, 15], [0, 4, 9]] : List (List (Fin 16))) ->
      row.length = 3 := by
    decide
  have hboth := QuantizedFrame.roundTrip (fits_sampleFrame 0x3F800000) hwidth
  exact ⟨hboth.left hscale, hboth.right.right⟩

end Sample

end Store
end Membrane
