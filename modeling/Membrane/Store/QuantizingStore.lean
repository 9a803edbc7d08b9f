import Mathlib.Algebra.BigOperators.Group.List.Lemmas
import Mathlib.Algebra.BigOperators.Ring.List
import Membrane.Store.QuantizedFrame
import Membrane.Store.StrictFrames

/-!
# Quantization at rest

A content store is wrapped: a payload that is the canonical frame of a floating-point tensor
is quantized before it reaches the store, and turned back into a canonical frame when it is
read.  Other payloads are stored as they are.  What was quantized is told apart by a magic
number alone.
-/

namespace Membrane
namespace Store

open Foundation Data

inductive QuantFormat where
  | int8
  | fp8E4M3
  | fp8E5M2
  | nf4
  deriving DecidableEq

def QuantFormat.formatId : QuantFormat -> Nat
  | .int8 => 1
  | .fp8E4M3 => 2
  | .fp8E5M2 => 3
  | .nf4 => 4

def quantizerForId (formatId : Nat) : Except FrameError QuantFormat :=
  match [QuantFormat.int8, .fp8E4M3, .fp8E5M2, .nf4].find? (fun f => f.formatId = formatId) with
  | some format => .ok format
  | none => .error (.raised (.keyError (toString formatId)))

/-- What is left to the arrays: the shapes they can have, what they raise for another shape,
and the arithmetic on rows. -/
class ArrayKernel where
  holds : List Nat -> Bool
  refusal : List Int -> FrameError
  quantizeRows : QuantFormat -> Dtype -> Nat -> Nat -> Bytes -> Bytes
  dequantizeRows : QuantFormat -> Nat -> Nat -> Bytes -> String -> List Nat ->
    Except FrameError Bytes

/-- The JSON codec of an envelope's identity: with blanks behind the separators, and read from
bytes of any encoding. -/
class EnvelopeText (phi : Type) where
  json : JsonBytes phi

def envelopeMagic : Bytes := [0x4D, 0x51, 0x56, 0x31]

def quantizableSize : Dtype -> Option Nat
  | .float16 => some 2
  | .float32 => some 4
  | .float64 => some 8
  | _ => none

section Tensors

variable [ArrayKernel]

/-- A buffer of as many items as the shape has takes the shape unless a dimension is
negative. -/
def reshape (shape : List Int) : Except FrameError (List Nat) :=
  if (forall d, d ∈ shape -> 0 ≤ d) ∧ ArrayKernel.holds (shape.map Int.toNat) then
    .ok (shape.map Int.toNat)
  else .error (ArrayKernel.refusal shape)

def rowCol : List Nat -> Except FrameError (Nat × Nat)
  | [] => .error (.raised .indexError)
  | [n] => .ok (1, n)
  | [rows, cols] => .ok (rows, cols)
  | rows :: rest =>
    if rows = 0 then .error (ArrayKernel.refusal [0, -1]) else .ok (rows, rest.prod)

/-- The largest magnitude of each row is taken first. -/
def quantize (format : QuantFormat) (dtype : Dtype) (shape : List Nat) (raw : Bytes) :
    Except FrameError QuantizedFrame := do
  let (nRows, nCols) <- rowCol shape
  if nRows ≠ 0 ∧ nCols = 0 then
    .error (.valueError
      "zero-size array to reduction operation maximum which has no identity")
  else
    let rows <- structPack 4 nRows
    let cols <- structPack 4 nCols
    return ⟨format.formatId, 0x3F800000, 0, dtype.name, shape,
      rows ++ (cols ++ ArrayKernel.quantizeRows format dtype nRows nCols raw)⟩

def dequantize (frame : QuantizedFrame) : Except FrameError Bytes := do
  let format <- quantizerForId frame.formatId
  let nRows <- unpackFrom 4 frame.payload 0
  let nCols <- unpackFrom 4 frame.payload 4
  ArrayKernel.dequantizeRows format nRows nCols (frame.payload.drop 8) frame.originalDtype
    frame.originalShape

end Tensors

section Codec

variable (phi : Type) [PyText phi] [JsonBytes phi] [EnvelopeText phi] [FrameDigest]

def identityJson (identity : PayloadIdentity) : Bytes :=
  EnvelopeText.json.dumps (identity.toDict : Json phi)

/-- The tensor that is quantized: a canonical frame with a floating-point dtype and as many
bytes as its shape needs. -/
def tensorOf (data : Bytes) : Option (PayloadIdentity × Bytes) :=
  match parseCanonical phi data with
  | .error _ => none
  | .ok (identity, raw) =>
    match quantizableSize identity.dtype with
    | none => none
    | some itemsize =>
      if identity.shape.prod * itemsize = raw.length then some (identity, raw) else none

variable [SingleText] [ArrayKernel]

def quantizeTensor (format : QuantFormat) (identity : PayloadIdentity) (raw : Bytes) :
    Except FrameError Bytes := do
  let shape <- reshape identity.shape
  let quantized <- quantize format identity.dtype shape raw
  let frame <- quantized.toBytes
  let length <- structPack 4 (identityJson phi identity).length
  return envelopeMagic ++ (length ++ (identityJson phi identity ++ frame))

def encode (format : QuantFormat) (data : Bytes) : Except FrameError Bytes :=
  match tensorOf phi data with
  | none => .ok data
  | some (identity, raw) => quantizeTensor phi format identity raw

def decode (stored : Bytes) : Except FrameError Bytes :=
  if ¬ envelopeMagic.isPrefixOf stored then .ok stored
  else do
    let length <- unpackFrom 4 stored 4
    let identity <- @parseIdentity phi _ EnvelopeText.json (slice stored 8 (8 + length))
    let frame <- QuantizedFrame.fromBytes (stored.drop (8 + length))
    let tensor <- dequantize frame
    canonicalize phi identity tensor

end Codec

structure QuantizingStore (sigma : Type) where
  inner : sigma
  formatName : QuantFormat

namespace QuantizingStore

variable (phi : Type) [PyText phi] [JsonBytes phi] [EnvelopeText phi] [FrameDigest]
  [SingleText] [ArrayKernel] {sigma : Type} [ContentStore sigma]

def put (s : QuantizingStore sigma) (key : String) (data : Bytes) :
    Except FrameError (QuantizingStore sigma) := do
  let stored <- encode phi s.formatName data
  let inner <- (ContentStore.put s.inner key stored).mapError .valueError
  return { s with inner := inner }

def get (s : QuantizingStore sigma) (key : String) : Except FrameError (Option Bytes) :=
  match ContentStore.get s.inner key with
  | none => .ok none
  | some stored => do
      let data <- decode phi stored
      return some data

end QuantizingStore

/-!
# Shapes that are quantized
-/

/-- The rows are not empty, unless there are none of them in a matrix, and the length of a
row fits its field. -/
def RowsFilled : List Nat -> Prop
  | [] => False
  | [n] => 0 < n
  | [rows, cols] => rows = 0 ∨ 0 < cols
  | shape => (forall d, d ∈ shape -> 0 < d) ∧ shape.tail.prod < 2 ^ 32

theorem quantizerForId_formatId (format : QuantFormat) :
    quantizerForId format.formatId = .ok format := by
  cases format with
  | int8 | fp8E4M3 | fp8E5M2 | nf4 => rfl

section Shapes

variable [ArrayKernel] {format : QuantFormat} {dtype : Dtype} {shape : List Nat} {raw : Bytes}

/-- The rows that are quantized: their largest magnitudes exist and their counts fit. -/
structure QuantizedRows (shape : List Nat) (nRows nCols : Nat) : Prop where
  read : rowCol shape = .ok (nRows, nCols)
  filled : ¬ (nRows ≠ 0 ∧ nCols = 0)
  rows_lt : nRows < 256 ^ 4
  cols_lt : nCols < 256 ^ 4

theorem reshape_eq_ok {shape : List Int} {dims : List Nat} (h : reshape shape = .ok dims) :
    (forall d, d ∈ shape -> 0 ≤ d) ∧ ArrayKernel.holds (shape.map Int.toNat) ∧
      dims = shape.map Int.toNat := by
  unfold reshape at h
  split at h
  next haccepted =>
      cases h
      exact ⟨haccepted.left, haccepted.right, rfl⟩
  · cases h

theorem exists_quantizedRows (hsize : forall d, d ∈ shape -> d < 2 ^ 32)
    (h : RowsFilled shape) : exists nRows nCols, QuantizedRows shape nRows nCols := by
  cases shape with
  | nil => cases h
  | cons rows rest =>
    have hrows : rows < 256 ^ 4 := hsize rows List.mem_cons_self
    cases rest with
    | nil =>
      have hpos : 0 < rows := h
      exact ⟨1, rows, rfl, fun hempty => Nat.ne_of_gt hpos hempty.right, by decide, hrows⟩
    | cons cols rest =>
      have hcols : cols < 256 ^ 4 :=
        hsize cols (List.mem_cons_of_mem rows List.mem_cons_self)
      cases rest with
      | nil =>
        have hfilled : rows = 0 ∨ 0 < cols := h
        exact ⟨rows, cols, rfl, by omega, hrows, hcols⟩
      | cons d rest =>
        obtain ⟨hpos, hprod⟩ : (forall e, e ∈ rows :: cols :: d :: rest -> 0 < e) ∧
          (cols :: d :: rest).prod < 2 ^ 32 := h
        have hzero : rows ≠ 0 := Nat.ne_of_gt (hpos rows List.mem_cons_self)
        have hwidth : 0 < (cols :: d :: rest).prod :=
          Nat.pos_of_ne_zero (List.prod_ne_zero (fun he =>
            Nat.lt_irrefl 0 (hpos 0 (List.mem_cons_of_mem rows he))))
        exact ⟨rows, _, if_neg hzero, fun hempty => Nat.ne_of_gt hwidth hempty.right,
          hrows, hprod⟩

theorem rowsFilled_of_rows {nRows nCols : Nat} (h : QuantizedRows shape nRows nCols) :
    RowsFilled shape := by
  obtain ⟨hrowCol, hfilled, hrows, hcols⟩ := h
  cases shape with
  | nil => cases hrowCol
  | cons rows rest =>
    cases rest with
    | nil =>
      cases hrowCol
      show 0 < nCols
      omega
    | cons cols rest =>
      cases rest with
      | nil =>
        cases hrowCol
        show nRows = 0 ∨ 0 < nCols
        omega
      | cons d rest =>
        by_cases hzero : rows = 0
        · have herror : rowCol (rows :: cols :: d :: rest) =
              .error (ArrayKernel.refusal [0, -1]) := if_pos hzero
          rw [herror] at hrowCol
          cases hrowCol
        · have hok : rowCol (rows :: cols :: d :: rest) =
              .ok (rows, (cols :: d :: rest).prod) := if_neg hzero
          rw [hok] at hrowCol
          cases hrowCol
          refine ⟨fun e he => ?_, hcols⟩
          have hwidth : 0 < (cols :: d :: rest).prod := by omega
          rcases List.mem_cons.mp he with rfl | he
          · exact Nat.pos_of_ne_zero hzero
          · exact Nat.pos_of_dvd_of_pos (List.dvd_prod he) hwidth

def rowsFrame (format : QuantFormat) (dtype : Dtype) (shape : List Nat) (nRows nCols : Nat)
    (raw : Bytes) : QuantizedFrame :=
  ⟨format.formatId, 0x3F800000, 0, dtype.name, shape, littleEndian 4 nRows ++
    (littleEndian 4 nCols ++ ArrayKernel.quantizeRows format dtype nRows nCols raw)⟩

theorem quantize_of_rows {nRows nCols : Nat} (h : QuantizedRows shape nRows nCols) :
    quantize format dtype shape raw = .ok (rowsFrame format dtype shape nRows nCols raw) := by
  have hrows : structPack 4 nRows = .ok (littleEndian 4 nRows) := if_pos h.rows_lt
  have hcols : structPack 4 nCols = .ok (littleEndian 4 nCols) := if_pos h.cols_lt
  rw [quantize, h.read]
  simp only [hrows, hcols, ok_bind]
  exact if_neg h.filled

theorem exists_rows_of_quantize {f : QuantizedFrame}
    (h : quantize format dtype shape raw = .ok f) :
    exists nRows nCols, QuantizedRows shape nRows nCols ∧
      f = rowsFrame format dtype shape nRows nCols raw := by
  obtain ⟨⟨nRows, nCols⟩, hrowCol, h⟩ := bind_eq_ok_iff.mp h
  simp only at h
  split at h
  · cases h
  next hfilled =>
      obtain ⟨rows, hrows, h⟩ := bind_eq_ok_iff.mp h
      obtain ⟨cols, hcols, h⟩ := bind_eq_ok_iff.mp h
      obtain ⟨hrowsLt, rfl⟩ := structPack_eq_ok hrows
      obtain ⟨hcolsLt, rfl⟩ := structPack_eq_ok hcols
      cases h
      exact ⟨nRows, nCols, ⟨hrowCol, hfilled, hrowsLt, hcolsLt⟩, rfl⟩

theorem dequantize_rowsFrame {nRows nCols : Nat} (h : QuantizedRows shape nRows nCols) :
    dequantize (rowsFrame format dtype shape nRows nCols raw) =
      ArrayKernel.dequantizeRows format nRows nCols
        (ArrayKernel.quantizeRows format dtype nRows nCols raw) dtype.name shape := by
  have hrows : unpackFrom 4 (rowsFrame format dtype shape nRows nCols raw).payload 0 =
      .ok nRows := by
    refine (unpackFrom_append (length_littleEndian 4 nRows) (List.length_nil) _).trans ?_
    rw [ofLittleEndian_littleEndian h.rows_lt]
  have hcols : unpackFrom 4 (rowsFrame format dtype shape nRows nCols raw).payload 4 =
      .ok nCols := by
    refine (unpackFrom_append (length_littleEndian 4 nCols)
      (length_littleEndian 4 nRows) _).trans ?_
    rw [ofLittleEndian_littleEndian h.cols_lt]
  have hdrop : (rowsFrame format dtype shape nRows nCols raw).payload.drop 8 =
      ArrayKernel.quantizeRows format dtype nRows nCols raw := by
    show (littleEndian 4 nRows ++ (littleEndian 4 nCols ++ _)).drop 8 = _
    rw [← List.append_assoc]
    apply List.drop_left'
    rw [List.length_append, length_littleEndian, length_littleEndian]
  rw [dequantize, hrows, hcols]
  show (quantizerForId format.formatId >>= _) = _
  rw [quantizerForId_formatId]
  rfl

end Shapes

/-!
# Envelopes
-/

section Envelopes

variable {phi : Type} [JsonBytes phi] [FrameDigest]

theorem exists_of_canonicalize {identity : PayloadIdentity} {raw frame : Bytes}
    (h : canonicalize phi identity raw = .ok frame) :
    exists rest, frame = frameMagic ++ rest := by
  unfold canonicalize at h
  split at h
  · cases h
  · obtain ⟨schema, _, h⟩ := bind_eq_ok_iff.mp h
    obtain ⟨reserved, _, h⟩ := bind_eq_ok_iff.mp h
    obtain ⟨identityLen, _, h⟩ := bind_eq_ok_iff.mp h
    obtain ⟨payloadLen, _, h⟩ := bind_eq_ok_iff.mp h
    cases h
    exact ⟨_, rfl⟩

variable [PyText phi]

theorem length_lt_of_parseCanonical {data raw : Bytes} {identity : PayloadIdentity}
    (h : parseCanonical phi data = .ok (identity, raw)) : raw.length < 256 ^ 8 := by
  rcases exists_parts_or_reported phi data with ⟨parts, rfl⟩ | ⟨e, herror, _⟩
  · rw [parseCanonical_bytes] at h
    obtain ⟨_, _, h⟩ := bind_eq_ok_iff.mp h
    obtain ⟨payload, hpayload, h⟩ := bind_eq_ok_iff.mp h
    cases h
    rw [parsePayload_bytes] at hpayload
    split at hpayload
    · cases hpayload
    · split at hpayload
      · cases hpayload
      · cases hpayload
        exact Nat.lt_of_le_of_lt (List.length_take_le _ _) parts.payloadLen_lt
  · rw [herror] at h
    cases h

theorem tensorOf_eq_some {data raw : Bytes} {identity : PayloadIdentity}
    (h : tensorOf phi data = some (identity, raw)) :
    parseCanonical phi data = .ok (identity, raw) ∧
      exists itemsize, quantizableSize identity.dtype = some itemsize ∧
        identity.shape.prod * itemsize = raw.length := by
  unfold tensorOf at h
  cases hparse : parseCanonical phi data with
  | error e =>
    simp only [hparse] at h
    cases h
  | ok parsed =>
    obtain ⟨other, payload⟩ := parsed
    simp only [hparse] at h
    split at h
    · cases h
    · rename_i itemsize hsize
      split at h
      next hbytes =>
          cases h
          exact ⟨rfl, itemsize, hsize, hbytes⟩
      · cases h

variable [EnvelopeText phi]

variable (phi) in
def envelope (identity : PayloadIdentity) (f : QuantizedFrame) : Bytes :=
  envelopeMagic ++ (littleEndian 4 (identityJson phi identity).length ++
    (identityJson phi identity ++ (f.framed ++ trailerOf f.framed)))

variable [ArrayKernel]

theorem decode_envelope (hjson : @IdentityRoundTrips phi EnvelopeText.json)
    {identity : PayloadIdentity} {f : QuantizedFrame} (hfits : f.Fits)
    (htext : (identityJson phi identity).length < 2 ^ 32) :
    decode phi (envelope phi identity f) = (do
      let tensor <- dequantize f
      canonicalize phi identity tensor) := by
  have hmagic : envelopeMagic.isPrefixOf (envelope phi identity f) :=
    List.isPrefixOf_iff_prefix.mpr (List.prefix_append _ _)
  have hlt : (identityJson phi identity).length < 256 ^ 4 := htext
  have hlength : unpackFrom 4 (envelope phi identity f) 4 =
      .ok (identityJson phi identity).length := by
    have hread := unpackFrom_append (length_littleEndian 4 (identityJson phi identity).length)
      (show envelopeMagic.length = 4 from rfl)
      (identityJson phi identity ++ (f.framed ++ trailerOf f.framed))
    rw [ofLittleEndian_littleEndian hlt] at hread
    exact hread
  have hdrop : (envelope phi identity f).drop 8 =
      identityJson phi identity ++ (f.framed ++ trailerOf f.framed) := by
    unfold envelope
    rw [← List.append_assoc]
    apply List.drop_left'
    rfl
  have hslice : slice (envelope phi identity f) 8 (8 + (identityJson phi identity).length) =
      identityJson phi identity := by
    rw [slice, Nat.add_sub_cancel_left]
    exact List.take_left' rfl
  have hrest : (envelope phi identity f).drop (8 + (identityJson phi identity).length) =
      f.framed ++ trailerOf f.framed := by
    rw [← List.drop_drop]
    exact List.drop_left' rfl
  obtain ⟨members, hloads, hmembers⟩ := hjson identity
  have hidentity : @parseIdentity phi _ EnvelopeText.json (identityJson phi identity) =
      .ok identity :=
    @parseIdentity_of_members phi _ EnvelopeText.json _ _ _ hloads hmembers
  rw [decode, if_neg (not_not_intro hmagic), hlength, ok_bind]
  rw [hslice, hidentity, ok_bind, hrest, QuantizedFrame.fromBytes_framed hfits, ok_bind]

end Envelopes

section Quantized

variable {phi : Type} [EnvelopeText phi] [ArrayKernel]

variable (phi) in
structure Quantizes (identity : PayloadIdentity) : Prop where
  dims : forall d, d ∈ identity.shape -> 0 ≤ d ∧ d < 2 ^ 32
  count : identity.shape.length ≤ 255
  holds : ArrayKernel.holds (identity.shape.map Int.toNat)
  filled : RowsFilled (identity.shape.map Int.toNat)
  text : (identityJson phi identity).length < 2 ^ 32

variable {format : QuantFormat} {identity : PayloadIdentity} {raw : Bytes}

theorem fits_rowsFrame (h : Quantizes phi identity) (nRows nCols : Nat) :
    (rowsFrame format identity.dtype (identity.shape.map Int.toNat) nRows nCols raw).Fits where
  formatId := by
    show format.formatId < 256
    cases format <;> decide
  zeroPoint := by
    show SignedRange 4 0
    decide
  dtype := by
    show (encodeUtf8 identity.dtype.name).length ≤ 255
    cases identity.dtype <;> decide
  count := by
    show (identity.shape.map Int.toNat).length ≤ 255
    rw [List.length_map]
    exact h.count
  shape := by
    intro d hd
    obtain ⟨n, hn, rfl⟩ := List.mem_map.mp hd
    have hlt := (h.dims n hn).right
    omega

variable [FrameDigest] [SingleText]

theorem quantizes_of_quantizeTensor {stored : Bytes}
    (h : quantizeTensor phi format identity raw = .ok stored) : Quantizes phi identity := by
  obtain ⟨shape, hshape, h⟩ := bind_eq_ok_iff.mp h
  obtain ⟨f, hquantize, h⟩ := bind_eq_ok_iff.mp h
  obtain ⟨frame, hframe, h⟩ := bind_eq_ok_iff.mp h
  obtain ⟨length, hlength, _⟩ := bind_eq_ok_iff.mp h
  obtain ⟨hnonneg, hholds, rfl⟩ := reshape_eq_ok hshape
  obtain ⟨nRows, nCols, hrows, rfl⟩ := exists_rows_of_quantize hquantize
  obtain ⟨hcount, hdims⟩ := QuantizedFrame.shape_of_toBytes hframe
  refine ⟨fun d hd => ⟨hnonneg d hd, ?_⟩, ?_, hholds, rowsFilled_of_rows hrows,
    (structPack_eq_ok hlength).left⟩
  · have hlt := hdims d.toNat (List.mem_map_of_mem hd)
    omega
  · have hsame : (identity.shape.map Int.toNat).length = identity.shape.length :=
      List.length_map _
    rw [← hsame]
    exact hcount

theorem quantizeTensor_of_quantizes (h : Quantizes phi identity) (format : QuantFormat)
    (raw : Bytes) :
    exists nRows nCols, QuantizedRows (identity.shape.map Int.toNat) nRows nCols ∧
      quantizeTensor phi format identity raw = .ok (envelope phi identity
        (rowsFrame format identity.dtype (identity.shape.map Int.toNat) nRows nCols raw)) := by
  have hsize : forall d, d ∈ identity.shape.map Int.toNat -> d < 2 ^ 32 := by
    intro d hd
    obtain ⟨n, hn, rfl⟩ := List.mem_map.mp hd
    have hlt := (h.dims n hn).right
    omega
  obtain ⟨nRows, nCols, hrows⟩ := exists_quantizedRows hsize h.filled
  have hreshape : reshape identity.shape = .ok (identity.shape.map Int.toNat) :=
    if_pos ⟨fun d hd => (h.dims d hd).left, h.holds⟩
  have hscale : Single.Finite 0x3F800000 ∧ ¬ Single.Negative 0x3F800000 := by decide
  have hlength : structPack 4 (identityJson phi identity).length =
      .ok (littleEndian 4 (identityJson phi identity).length) := if_pos h.text
  refine ⟨nRows, nCols, hrows, ?_⟩
  rw [quantizeTensor, hreshape, ok_bind, quantize_of_rows hrows, ok_bind,
    QuantizedFrame.toBytes_of_fits (fits_rowsFrame h nRows nCols) hscale, hlength,
    ok_bind]
  rfl

end Quantized

/-!
# What is read back
-/

theorem prod_toNat {shape : List Int} (h : forall d, d ∈ shape -> 0 ≤ d) :
    ((shape.map Int.toNat).prod : Int) = shape.prod := by
  induction shape with
  | nil => rfl
  | cons d rest ih =>
    have hrest := ih (fun e he => h e (List.mem_cons_of_mem d he))
    rw [List.map_cons, List.prod_cons, List.prod_cons, Nat.cast_mul, hrest,
      Int.toNat_of_nonneg (h d List.mem_cons_self)]

section ReadBack

variable [ArrayKernel]

/-- Quantized rows are turned back into as many bytes as there were. -/
def KernelRestores : Prop :=
  forall (format : QuantFormat) (dtype : Dtype) (itemsize : Nat) (shape : List Nat)
    (nRows nCols : Nat) (raw : Bytes), quantizableSize dtype = some itemsize ->
    shape.prod * itemsize = raw.length -> ArrayKernel.holds shape ->
    rowCol shape = .ok (nRows, nCols) -> ¬ (nRows ≠ 0 ∧ nCols = 0) ->
      exists tensor, ArrayKernel.dequantizeRows format nRows nCols
        (ArrayKernel.quantizeRows format dtype nRows nCols raw) dtype.name shape = .ok tensor ∧
          tensor.length = raw.length

variable (phi : Type) [JsonBytes phi] [EnvelopeText phi]

/-- Both renderings of an identity are read back, the one without blanks is not the longer
one, and the arithmetic keeps the number of bytes. -/
structure QuantizingLaws : Prop where
  json : IdentityRoundTrips phi
  envelope : @IdentityRoundTrips phi EnvelopeText.json
  compact : forall identity : PayloadIdentity,
    (JsonBytes.dumps (identity.toDict : Json phi)).length ≤ (identityJson phi identity).length
  restores : KernelRestores

variable [PyText phi] [FrameDigest]

def ReadsBack (data : Bytes) : Prop :=
  match tensorOf phi data with
  | none => ¬ envelopeMagic.isPrefixOf data
  | some (identity, _) => Quantizes phi identity

theorem decode_eq_self_iff (data : Bytes) :
    decode phi data = .ok data <-> ¬ envelopeMagic.isPrefixOf data := by
  constructor
  · intro h hmagic
    rw [decode, if_neg (not_not_intro hmagic)] at h
    obtain ⟨_, _, h⟩ := bind_eq_ok_iff.mp h
    obtain ⟨_, _, h⟩ := bind_eq_ok_iff.mp h
    obtain ⟨_, _, h⟩ := bind_eq_ok_iff.mp h
    obtain ⟨_, _, h⟩ := bind_eq_ok_iff.mp h
    obtain ⟨rest, hrest⟩ := exists_of_canonicalize h
    obtain ⟨others, hothers⟩ := List.isPrefixOf_iff_prefix.mp hmagic
    rw [← hothers] at hrest
    injection hrest with hfirst
    exact absurd hfirst (by decide)
  · intro hmagic
    exact if_pos hmagic

variable {phi}

theorem decode_quantizeTensor [SingleText] (hlaws : QuantizingLaws phi) {data raw : Bytes}
    {identity : PayloadIdentity} (htensor : tensorOf phi data = some (identity, raw))
    (h : Quantizes phi identity) (format : QuantFormat) :
    exists stored frame tensor, quantizeTensor phi format identity raw = .ok stored ∧
      decode phi stored = .ok frame ∧ parseCanonical phi frame = .ok (identity, tensor) := by
  obtain ⟨hparse, itemsize, hsize, hbytes⟩ := tensorOf_eq_some htensor
  obtain ⟨nRows, nCols, hrows, hstored⟩ := quantizeTensor_of_quantizes h format raw
  have hprod : (identity.shape.map Int.toNat).prod * itemsize = raw.length := by
    have hcast := prod_toNat (fun d hd => (h.dims d hd).left)
    rw [← hcast] at hbytes
    exact_mod_cast hbytes
  obtain ⟨tensor, hrestored, hlength⟩ := hlaws.restores format identity.dtype itemsize _ nRows
    nCols raw hsize hprod h.holds hrows.read hrows.filled
  have htensorlt : tensor.length < 2 ^ 64 := by
    have hlt : raw.length < 2 ^ 64 := length_lt_of_parseCanonical hparse
    omega
  have htext := Nat.lt_of_le_of_lt (hlaws.compact identity) h.text
  obtain ⟨frame, hframe, hback⟩ :=
    (parseCanonical_canonicalize hlaws.json identity htext tensor).left htensorlt
  refine ⟨_, frame, tensor, hstored, ?_, hback⟩
  rw [decode_envelope hlaws.envelope (fits_rowsFrame h nRows nCols) h.text,
    dequantize_rowsFrame hrows, hrestored]
  exact hframe

end ReadBack

namespace QuantizingStore

variable {phi : Type} [PyText phi] [JsonBytes phi] [EnvelopeText phi] [FrameDigest]
  [SingleText] [ArrayKernel] {sigma : Type} [ContentStore sigma]

variable (phi) in
/-- The payload is stored, and reading it gives the same bytes, or a canonical frame with the
same identity if it is a tensor. -/
def Preserved (s : QuantizingStore sigma) (key : String) (data : Bytes) : Prop :=
  exists t answer, s.put phi key data = .ok t ∧ t.get phi key = .ok (some answer) ∧
    match tensorOf phi data with
    | none => answer = data
    | some (identity, _) => exists tensor, parseCanonical phi answer = .ok (identity, tensor)

theorem exists_get_put_iff {s : QuantizingStore sigma} {key : String} {data : Bytes}
    (haccepts : forall stored, exists inner, ContentStore.put s.inner key stored = .ok inner)
    (p : Bytes -> Prop) :
    (exists t answer, s.put phi key data = .ok t ∧ t.get phi key = .ok (some answer) ∧
        p answer) <->
      exists stored answer, encode phi s.formatName data = .ok stored ∧
        decode phi stored = .ok answer ∧ p answer := by
  have hget : forall {stored : Bytes} {inner : sigma},
      ContentStore.put s.inner key stored = .ok inner -> forall answer,
      (({ s with inner := inner } : QuantizingStore sigma).get phi key = .ok (some answer) <->
        decode phi stored = .ok answer) := by
    intro stored inner hinner answer
    have hstored := ContentStore.get_put s.inner key stored inner hinner key
    rw [if_pos rfl] at hstored
    unfold get
    simp only [hstored]
    rw [bind_eq_ok_iff]
    constructor
    · intro h
      obtain ⟨data, hdata, h⟩ := h
      cases h
      exact hdata
    · intro h
      exact ⟨answer, h, rfl⟩
  constructor
  · intro h
    obtain ⟨t, answer, hput, hread, hp⟩ := h
    obtain ⟨stored, hencode, hput⟩ := bind_eq_ok_iff.mp hput
    obtain ⟨inner, hinner⟩ := haccepts stored
    rw [hinner] at hput
    cases hput
    exact ⟨stored, answer, hencode, (hget hinner answer).mp hread, hp⟩
  · intro h
    obtain ⟨stored, answer, hencode, hdecode, hp⟩ := h
    obtain ⟨inner, hinner⟩ := haccepts stored
    refine ⟨{ s with inner := inner }, answer, ?_, (hget hinner answer).mpr hdecode, hp⟩
    rw [put, hencode, ok_bind, hinner]
    rfl

/-- A payload is preserved exactly when it is no tensor and begins with no magic number, or is
a tensor that can be quantized. -/
theorem preserved_iff (hlaws : QuantizingLaws phi) {s : QuantizingStore sigma} {key : String}
    (haccepts : forall stored, exists inner, ContentStore.put s.inner key stored = .ok inner)
    (data : Bytes) : s.Preserved phi key data <-> ReadsBack phi data := by
  rw [Preserved, exists_get_put_iff haccepts, ReadsBack, encode]
  cases htensor : tensorOf phi data with
  | none =>
    rw [← decode_eq_self_iff phi data]
    constructor
    · intro h
      obtain ⟨stored, answer, hstored, hdecode, rfl⟩ := h
      cases hstored
      exact hdecode
    · intro h
      exact ⟨data, data, rfl, h, rfl⟩
  | some tensor =>
    obtain ⟨identity, raw⟩ := tensor
    constructor
    · intro h
      obtain ⟨stored, _, hstored, _⟩ := h
      exact quantizes_of_quantizeTensor hstored
    · intro h
      obtain ⟨stored, frame, tensor, hstored, hdecode, hframe⟩ :=
        decode_quantizeTensor hlaws htensor h s.formatName
      exact ⟨stored, frame, hstored, hdecode, tensor, hframe⟩

end QuantizingStore

section Sample

attribute [local instance] PyText.whole JsonBytes.parts FrameDigest.constant
  SingleText.constant

@[reducible] def EnvelopeText.parts : EnvelopeText Int where
  json := JsonBytes.parts

@[reducible] def ArrayKernel.copying : ArrayKernel where
  holds _ := true
  refusal _ := .valueError "cannot reshape"
  quantizeRows _ _ _ _ raw := raw
  dequantizeRows _ _ _ data _ _ := .ok data

attribute [local instance] EnvelopeText.parts ArrayKernel.copying

theorem laws_copying : QuantizingLaws Int where
  json := parts_roundTrips
  envelope := parts_roundTrips
  compact _ := le_refl _
  restores := by
    intro format dtype itemsize shape nRows nCols raw _ _ _ _ _
    exact ⟨raw, rfl, rfl⟩

def quantizedBytes : QuantizingStore InProcessBytes :=
  ⟨InProcessBytes.create none, .int8⟩

theorem quantizedBytes_accepts (stored : Bytes) :
    exists inner, ContentStore.put quantizedBytes.inner "k" stored = .ok inner :=
  ⟨_, rfl⟩

theorem QuantizingStore.preserved_iff_text :
    (quantizedBytes.Preserved Int "k" [0x4D, 0x51] <-> ReadsBack Int [0x4D, 0x51]) ∧
      ReadsBack Int [0x4D, 0x51] := by
  refine ⟨preserved_iff laws_copying quantizedBytes_accepts [0x4D, 0x51], ?_⟩
  have htensor : tensorOf Int [0x4D, 0x51] = none := by decide
  unfold ReadsBack
  simp only [htensor]
  decide

theorem accepted_emptyRows :
    ({ (PayloadIdentity.plain "h" nonempty_h).toIdentityFields with
      shape := [2, 0] } : IdentityFields).postInit = .ok () := by
  decide

def emptyRows : PayloadIdentity :=
  ⟨{ (PayloadIdentity.plain "h" nonempty_h).toIdentityFields with shape := [2, 0] },
    accepted_emptyRows⟩

/-- The magic number of an envelope is stored and cannot be read, and the frame of two empty
rows cannot be stored. -/
theorem QuantizingStore.not_preserved :
    (tensorOf Int envelopeMagic = none ∧
        ¬ quantizedBytes.Preserved Int "k" envelopeMagic) ∧
      exists frame, canonicalize Int emptyRows [] = .ok frame ∧
        tensorOf Int frame = some (emptyRows, []) ∧
        quantizedBytes.put Int "k" frame = .error (.valueError
          "zero-size array to reduction operation maximum which has no identity") := by
  have htext : tensorOf Int envelopeMagic = none := by decide
  refine ⟨⟨htext, ?_⟩, ?_⟩
  · intro h
    obtain ⟨stored, answer, hstored, hdecode, _⟩ :=
      (exists_get_put_iff quantizedBytes_accepts _).mp h
    cases hstored
    have herror : decode Int envelopeMagic = .error .structError := by decide
    cases hdecode
  · obtain ⟨frame, hframe, hparse⟩ :=
      (parseCanonical_canonicalize parts_roundTrips emptyRows (by decide +kernel) []).left
        (by decide)
    have htensor : tensorOf Int frame = some (emptyRows, []) := by
      unfold tensorOf
      simp only [hparse]
      rfl
    refine ⟨frame, hframe, htensor, ?_⟩
    rw [put, encode, htensor]
    show (quantizeTensor Int .int8 emptyRows [] >>= _) = _
    rfl

end Sample

end Store
end Membrane
