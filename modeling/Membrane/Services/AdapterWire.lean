import Membrane.Store.PackedFields

/-!
# The wire format of the adapters

A bundle of layers is written as a magic number, the schema, the number of layers, six
signed words for the ranges, three words for the shape, the K and V bytes of every layer,
and a digest of the fingerprint.  The reader takes the header as 36 bytes and goes on 32
bytes behind its start, so that it reads the layers from the last word of the header on.
-/

namespace Membrane
namespace Services

open Foundation Store

structure LayerKV where
  layerIdx : Nat
  k : Bytes
  v : Bytes
  headRange : Int × Int
  dtype : String
  deriving DecidableEq

structure KVTensor (sigma : Type) where
  layers : List LayerKV
  layerRange : Int × Int
  headRange : Int × Int
  tokenSpan : Int × Int
  shape : Nat × Nat × Nat × Nat
  fingerprint : sigma

def adapterMagic : Bytes := [0x4D, 0x56, 0x4B, 0x56]

class CompatFingerprint (sigma : Type) where
  compatibilityHash : sigma -> Bytes
  placeholder : sigma

def layerBlocks (layers : List LayerKV) : List Bytes :=
  layers.flatMap (fun layer => [layer.k, layer.v])

def safeLayer (k v : Bytes) (layerIdx : Nat) (headRange : Int × Int) : LayerKV :=
  { layerIdx := layerIdx, k := k, v := v, headRange := headRange, dtype := "float16" }

def readLayers (size : Nat) (headRange : Int × Int) : Nat -> Nat -> Bytes -> List LayerKV
  | 0, _, _ => []
  | n + 1, layerIdx, data =>
    safeLayer (data.take size) ((data.drop size).take size) layerIdx headRange ::
      readLayers size headRange n (layerIdx + 1) ((data.drop size).drop size)

/-!
# The layers that are read
-/

def layerBytes (layers : List LayerKV) : List (Bytes × Bytes) :=
  layers.map (fun layer => (layer.k, layer.v))

section

variable (size : Nat) (headRange : Int × Int) (n layerIdx : Nat) (data : Bytes)

include headRange

theorem length_readLayers : (readLayers size headRange n layerIdx data).length = n := by
  induction n generalizing layerIdx data with
  | zero => rfl
  | succ n ih => rw [readLayers, List.length_cons, ih]

theorem layerBlocks_readLayers :
    layerBlocks (readLayers size headRange n layerIdx data) = cut size (2 * n) data := by
  induction n generalizing layerIdx data with
  | zero => rfl
  | succ n ih =>
    show data.take size :: (data.drop size).take size ::
        layerBlocks (readLayers size headRange n (layerIdx + 1) ((data.drop size).drop size)) =
      _
    rw [ih]
    rfl

end

theorem length_layerBlocks (layers : List LayerKV) :
    (layerBlocks layers).length = 2 * layers.length := by
  induction layers with
  | nil => rfl
  | cons layer rest ih =>
    show (layerBlocks rest).length + 2 = 2 * (rest.length + 1)
    omega

theorem layerBytes_eq_iff {first second : List LayerKV} :
    layerBytes first = layerBytes second <-> layerBlocks first = layerBlocks second := by
  induction first generalizing second with
  | nil =>
    cases second with
    | nil => exact ⟨fun _ => rfl, fun _ => rfl⟩
    | cons layer rest =>
      constructor
      · intro h
        cases h
      · intro h
        cases h
  | cons layer rest ih =>
    cases second with
    | nil =>
      constructor
      · intro h
        cases h
      · intro h
        cases h
    | cons other others =>
      show (layer.k, layer.v) :: layerBytes rest =
          (other.k, other.v) :: layerBytes others <->
        layer.k :: layer.v :: layerBlocks rest = other.k :: other.v :: layerBlocks others
      simp only [List.cons.injEq, Prod.mk.injEq, ih, and_assoc]

theorem readLayers_eq_iff {size : Nat} {layers : List LayerKV}
    (hsize : forall block, block ∈ layerBlocks layers -> block.length = size)
    (headRange : Int × Int) {data : Bytes} (hlength : 2 * layers.length * size ≤ data.length) :
    layerBytes (readLayers size headRange layers.length 0 data) = layerBytes layers <->
      data.take (layerBlocks layers).flatten.length = (layerBlocks layers).flatten := by
  have hblocks := length_layerBlocks layers
  have htotal : (layerBlocks layers).flatten.length = 2 * layers.length * size := by
    rw [List.length_flatten, List.map_congr_left hsize, List.map_const', List.sum_replicate_nat,
      hblocks]
  rw [layerBytes_eq_iff, layerBlocks_readLayers, htotal]
  constructor
  · intro h
    rw [← flatten_cut hlength, h]
  · intro h
    rw [← List.take_append_drop (2 * layers.length * size) data, h, ← hblocks]
    exact cut_flatten hsize _

/-!
# Bundles that fit the format
-/

section Fields

variable {sigma : Type}

def KVTensor.InRange (t : KVTensor sigma) : Prop :=
  SignedRange 4 t.layerRange.1 ∧ SignedRange 4 t.layerRange.2 ∧ SignedRange 4 t.headRange.1 ∧
    SignedRange 4 t.headRange.2 ∧ SignedRange 4 t.tokenSpan.1 ∧ SignedRange 4 t.tokenSpan.2

def KVTensor.SizesFit (t : KVTensor sigma) : Prop :=
  t.layers.length < 256 ^ 4 ∧ t.shape.1 < 256 ^ 4 ∧ t.shape.2.1 < 256 ^ 4 ∧
    t.shape.2.2.1 < 256 ^ 4

def wireFields (t : KVTensor sigma) : List Bytes :=
  [signedField 4 t.layerRange.1, signedField 4 t.layerRange.2, signedField 4 t.headRange.1,
    signedField 4 t.headRange.2, signedField 4 t.tokenSpan.1, signedField 4 t.tokenSpan.2,
    littleEndian 4 t.shape.1, littleEndian 4 t.shape.2.1, littleEndian 4 t.shape.2.2.1]

theorem length_of_mem_wireFields {t : KVTensor sigma} {field : Bytes}
    (h : field ∈ wireFields t) : field.length = 4 := by
  simp only [wireFields, List.mem_cons, List.not_mem_nil, or_false] at h
  rcases h with rfl | rfl | rfl | rfl | rfl | rfl | rfl | rfl | rfl <;>
    exact length_littleEndian _ _

/-- The layers hold as many bytes as the shape says, in elements of two bytes. -/
def KVTensor.Float16 (t : KVTensor sigma) : Prop :=
  forall layer, layer ∈ t.layers -> layer.dtype = "float16" ∧
    layer.k.length = t.shape.1 * t.shape.2.1 * t.shape.2.2.1 * 2 ∧
      layer.v.length = t.shape.1 * t.shape.2.1 * t.shape.2.2.1 * 2

theorem length_of_mem_layerBlocks {t : KVTensor sigma} (h : t.Float16) {block : Bytes}
    (hblock : block ∈ layerBlocks t.layers) :
    block.length = t.shape.1 * t.shape.2.1 * t.shape.2.2.1 * 2 := by
  obtain ⟨layer, hlayer, hmem⟩ := List.mem_flatMap.mp hblock
  simp only [List.mem_cons, List.not_mem_nil, or_false] at hmem
  rcases hmem with rfl | rfl
  · exact (h layer hlayer).right.left
  · exact (h layer hlayer).right.right

end Fields

/-!
# Writing and reading a bundle
-/

section Wire

variable {sigma : Type} [CompatFingerprint sigma] [FrameDigest]

def fingerprintDigest (fingerprint : sigma) : Bytes :=
  (FrameDigest.sha256 (CompatFingerprint.compatibilityHash fingerprint)).take 16

def serialize (t : KVTensor sigma) : Except FrameError Bytes :=
  if t.layers = [] then
    .ok (adapterMagic ++ (littleEndian 2 1 ++ littleEndian 4 0))
  else do
    let count <- structPack 4 t.layers.length
    let layerStart <- packSigned 4 t.layerRange.1
    let layerEnd <- packSigned 4 t.layerRange.2
    let headStart <- packSigned 4 t.headRange.1
    let headEnd <- packSigned 4 t.headRange.2
    let tokenStart <- packSigned 4 t.tokenSpan.1
    let tokenEnd <- packSigned 4 t.tokenSpan.2
    let shape0 <- structPack 4 t.shape.1
    let shape1 <- structPack 4 t.shape.2.1
    let shape2 <- structPack 4 t.shape.2.2.1
    return adapterMagic ++ (littleEndian 2 1 ++ (count ++
      ([layerStart, layerEnd, headStart, headEnd, tokenStart, tokenEnd, shape0, shape1,
        shape2].flatten ++ ((layerBlocks t.layers).flatten ++ fingerprintDigest t.fingerprint))))

def emptyTensor : KVTensor sigma :=
  { layers := [], layerRange := (0, 0), headRange := (-1, -1), tokenSpan := (0, 0),
    shape := (1, 1, 1, 64), fingerprint := CompatFingerprint.placeholder }

def readTensor (nLayers : Nat) (fields : List Bytes) (data : Bytes) :
    Except FrameError (KVTensor sigma) :=
  match fields with
  | [layerStart, layerEnd, headStart, headEnd, tokenStart, tokenEnd, shape0, shape1, shape2] =>
    let headRange := (unpackSigned headStart, unpackSigned headEnd)
    let size := ofLittleEndian shape0 * ofLittleEndian shape1 * ofLittleEndian shape2 * 2
    .ok
      { layers := readLayers size headRange nLayers 0 data
        layerRange := (unpackSigned layerStart, unpackSigned layerEnd)
        headRange := headRange
        tokenSpan := (unpackSigned tokenStart, unpackSigned tokenEnd)
        shape := (ofLittleEndian shape0, ofLittleEndian shape1, ofLittleEndian shape2, 64)
        fingerprint := CompatFingerprint.placeholder }
  | _ => .error .structError

def deserialize (payload : Bytes) : Except FrameError (KVTensor sigma) :=
  if ¬ adapterMagic.isPrefixOf payload then
    .error (.valueError "invalid KVAdapter magic")
  else do
    let schema <- unpackFrom 2 payload 4
    if schema ≠ 1 then
      .error (.valueError ("unsupported KVAdapter schema: " ++ toString schema))
    else do
      let nLayers <- unpackFrom 4 payload 6
      if nLayers = 0 then .ok emptyTensor
      else if payload.length < 10 + 36 then .error .structError
      -- the header ends at 10 + 36, the layers are read from 10 + 32 on
      else readTensor nLayers (cut 4 9 (payload.drop 10)) (payload.drop (10 + 32))

/-!
# What is read back
-/

def wireTail (t : KVTensor sigma) : Bytes :=
  (layerBlocks t.layers).flatten ++ fingerprintDigest t.fingerprint

def wireBytes (t : KVTensor sigma) : Bytes :=
  adapterMagic ++ (littleEndian 2 1 ++ (littleEndian 4 t.layers.length ++
    ((wireFields t).flatten ++ wireTail t)))

theorem serialize_of_fits {t : KVTensor sigma} (hne : t.layers ≠ []) (hrange : t.InRange)
    (hfits : t.SizesFit) : serialize t = .ok (wireBytes t) := by
  obtain ⟨hls, hle, hhs, hhe, hts, hte⟩ := hrange
  obtain ⟨hcount, h0, h1, h2⟩ := hfits
  unfold serialize structPack
  rw [if_neg hne, if_pos hcount, if_pos h0, if_pos h1, if_pos h2, packSigned_of_range hls,
    packSigned_of_range hle, packSigned_of_range hhs, packSigned_of_range hhe,
    packSigned_of_range hts, packSigned_of_range hte]
  rfl

theorem fits_of_serialize {t : KVTensor sigma} (hne : t.layers ≠ []) (hrange : t.InRange)
    {payload : Bytes} (h : serialize t = .ok payload) : t.SizesFit := by
  obtain ⟨hls, hle, hhs, hhe, hts, hte⟩ := hrange
  unfold serialize structPack at h
  rw [if_neg hne, packSigned_of_range hls, packSigned_of_range hle, packSigned_of_range hhs,
    packSigned_of_range hhe, packSigned_of_range hts, packSigned_of_range hte] at h
  by_cases hcount : t.layers.length < 256 ^ 4
  · rw [if_pos hcount] at h
    by_cases h0 : t.shape.1 < 256 ^ 4
    · rw [if_pos h0] at h
      by_cases h1 : t.shape.2.1 < 256 ^ 4
      · rw [if_pos h1] at h
        by_cases h2 : t.shape.2.2.1 < 256 ^ 4
        · exact ⟨hcount, h0, h1, h2⟩
        · rw [if_neg h2] at h
          cases h
      · rw [if_neg h1] at h
        cases h
    · rw [if_neg h0] at h
      cases h
  · rw [if_neg hcount] at h
    cases h

theorem cut_wireBytes (t : KVTensor sigma) :
    cut 4 9 ((wireBytes t).drop 10) = wireFields t := by
  have hall : forall field, field ∈ wireFields t -> field.length = 4 :=
    fun _ h => length_of_mem_wireFields h
  exact cut_flatten hall _

theorem drop_wireBytes (t : KVTensor sigma) :
    (wireBytes t).drop (10 + 32) = littleEndian 4 t.shape.2.2.1 ++ wireTail t := by
  have hsplit : wireBytes t = (adapterMagic ++ (littleEndian 2 1 ++
      (littleEndian 4 t.layers.length ++ ((wireFields t).take 8).flatten))) ++
        (littleEndian 4 t.shape.2.2.1 ++ wireTail t) := by
    simp only [wireBytes, wireFields, List.take, List.flatten_cons, List.flatten_nil,
      List.append_assoc, List.nil_append]
  rw [hsplit]
  refine List.drop_left' ?_
  rfl

theorem deserialize_wireBytes {t : KVTensor sigma} (hne : t.layers ≠ []) (hrange : t.InRange)
    (hfits : t.SizesFit) :
    (deserialize (wireBytes t) : Except FrameError (KVTensor sigma)) = .ok
      { layers := readLayers (t.shape.1 * t.shape.2.1 * t.shape.2.2.1 * 2) t.headRange
          t.layers.length 0 (littleEndian 4 t.shape.2.2.1 ++ wireTail t)
        layerRange := t.layerRange
        headRange := t.headRange
        tokenSpan := t.tokenSpan
        shape := (t.shape.1, t.shape.2.1, t.shape.2.2.1, 64)
        fingerprint := CompatFingerprint.placeholder } := by
  obtain ⟨hls, hle, hhs, hhe, hts, hte⟩ := hrange
  obtain ⟨hcount, h0, h1, h2⟩ := hfits
  have hmagic : adapterMagic.isPrefixOf (wireBytes t) :=
    List.isPrefixOf_iff_prefix.mpr (List.prefix_append _ _)
  have hschema : unpackFrom 2 (wireBytes t) 4 = .ok 1 :=
    unpackFrom_append (length_littleEndian 2 1) rfl _
  have hlayers : unpackFrom 4 (wireBytes t) 6 = .ok t.layers.length := by
    have hbefore : (adapterMagic ++ littleEndian 2 1).length = 6 := rfl
    unfold wireBytes
    rw [← List.append_assoc, unpackFrom_append (length_littleEndian 4 _) hbefore _,
      ofLittleEndian_littleEndian hcount]
  have hlength : ¬ (wireBytes t).length < 10 + 36 := by
    have hdrop := congrArg List.length (drop_wireBytes t)
    rw [List.length_drop, List.length_append, length_littleEndian] at hdrop
    omega
  unfold deserialize
  rw [if_neg (not_not_intro hmagic), hschema, hlayers]
  rw [ok_bind, if_neg (not_not_intro rfl), ok_bind,
    if_neg (fun hzero => hne (List.eq_nil_of_length_eq_zero hzero)), if_neg hlength,
    cut_wireBytes, drop_wireBytes]
  simp only [readTensor, wireFields, unpackSigned_signedField hls, unpackSigned_signedField hle,
    unpackSigned_signedField hhs, unpackSigned_signedField hhe, unpackSigned_signedField hts,
    unpackSigned_signedField hte, ofLittleEndian_littleEndian h0,
    ofLittleEndian_littleEndian h1, ofLittleEndian_littleEndian h2]

/-!
# When a bundle is read back
-/

def SameBundle (read t : KVTensor sigma) : Prop :=
  read.layers.length = t.layers.length ∧ read.layerRange = t.layerRange ∧
    read.headRange = t.headRange ∧ read.tokenSpan = t.tokenSpan ∧
    read.shape.1 = t.shape.1 ∧ read.shape.2.1 = t.shape.2.1 ∧
    read.shape.2.2.1 = t.shape.2.2.1 ∧ layerBytes read.layers = layerBytes t.layers

def RepeatsWidth (t : KVTensor sigma) : Prop :=
  forall i, i < (layerBlocks t.layers).flatten.length ->
    (layerBlocks t.layers).flatten[i]? = (littleEndian 4 t.shape.2.2.1)[i % 4]?

theorem sameBundle_iff {t : KVTensor sigma} (hne : t.layers ≠ []) (hrange : t.InRange)
    (hfloat : t.Float16) :
    (exists payload read, serialize t = .ok payload ∧ deserialize payload = .ok read ∧
        SameBundle read t) <->
      t.SizesFit ∧ RepeatsWidth t := by
  have hsize : forall block, block ∈ layerBlocks t.layers -> _ :=
    fun _ hblock => length_of_mem_layerBlocks hfloat hblock
  have hlength : 2 * t.layers.length * (t.shape.1 * t.shape.2.1 * t.shape.2.2.1 * 2) ≤
      (littleEndian 4 t.shape.2.2.1 ++ wireTail t).length := by
    rw [← length_layerBlocks, wireTail, List.length_append, List.length_append,
      List.length_flatten, List.map_congr_left hsize, List.map_const', List.sum_replicate_nat]
    omega
  have hword : 0 < (littleEndian 4 t.shape.2.2.1).length := by
    rw [length_littleEndian]
    decide
  have hperiodic := take_append_eq_iff_periodic hword (layerBlocks t.layers).flatten
    (fingerprintDigest t.fingerprint)
  rw [length_littleEndian] at hperiodic
  have hlayers := (readLayers_eq_iff hsize t.headRange hlength).trans hperiodic
  constructor
  · intro h
    obtain ⟨payload, read, hwritten, hread, hsame⟩ := h
    have hfits := fits_of_serialize hne hrange hwritten
    rw [serialize_of_fits hne hrange hfits] at hwritten
    cases hwritten
    rw [deserialize_wireBytes hne hrange hfits] at hread
    cases hread
    exact ⟨hfits, hlayers.mp hsame.right.right.right.right.right.right.right⟩
  · intro h
    refine ⟨_, _, serialize_of_fits hne hrange h.left,
      deserialize_wireBytes hne hrange h.left, ?_⟩
    exact ⟨length_readLayers _ _ _ _ _, rfl, rfl, rfl, rfl, rfl, rfl, hlayers.mpr h.right⟩

end Wire

section Sample

@[reducible] def CompatFingerprint.unit : CompatFingerprint Unit where
  compatibilityHash _ := []
  placeholder := ()

attribute [local instance] CompatFingerprint.unit FrameDigest.constant

def oneElement (k v : Bytes) : KVTensor Unit :=
  { layers := [{ layerIdx := 0, k := k, v := v, headRange := (0, 0), dtype := "float16" }]
    layerRange := (0, 0), headRange := (0, 0), tokenSpan := (0, 0), shape := (1, 1, 1, 64)
    fingerprint := () }

theorem inRange_oneElement (k v : Bytes) : (oneElement k v).InRange := by
  have hzero : SignedRange 4 0 := by decide
  exact ⟨hzero, hzero, hzero, hzero, hzero, hzero⟩

theorem float16_oneElement {k v : Bytes} (hk : k.length = 2) (hv : v.length = 2) :
    (oneElement k v).Float16 := by
  intro layer hlayer
  rw [oneElement, List.mem_singleton] at hlayer
  subst hlayer
  exact ⟨rfl, hk, hv⟩

/-- The K bytes of a layer of zeros come back as the low bytes of the width. -/
theorem serialize_zeros_shifted :
    (oneElement [0, 0] [0, 0]).InRange ∧ (oneElement [0, 0] [0, 0]).Float16 ∧
      layerBytes (oneElement [0, 0] [0, 0]).layers = [([0, 0], [0, 0])] ∧
      exists payload read, serialize (oneElement [0, 0] [0, 0]) = .ok payload ∧
        (deserialize payload : Except FrameError (KVTensor Unit)) = .ok read ∧
          layerBytes read.layers = [([1, 0], [0, 0])] := by
  have hne : (oneElement [0, 0] [0, 0]).layers ≠ [] := by
    intro h
    cases h
  have hfits : (oneElement [0, 0] [0, 0]).SizesFit :=
    ⟨by decide, by decide, by decide, by decide⟩
  exact ⟨inRange_oneElement _ _, float16_oneElement rfl rfl, rfl, _, _,
    serialize_of_fits hne (inRange_oneElement _ _) hfits,
    deserialize_wireBytes hne (inRange_oneElement _ _) hfits, rfl⟩

theorem sameBundle_iff_oneElement :
    (exists payload read, serialize (oneElement [1, 0] [0, 0]) = .ok payload ∧
        deserialize payload = .ok read ∧ SameBundle read (oneElement [1, 0] [0, 0])) <->
      (oneElement [1, 0] [0, 0]).SizesFit ∧ RepeatsWidth (oneElement [1, 0] [0, 0]) := by
  refine sameBundle_iff ?_ (inRange_oneElement _ _) (float16_oneElement rfl rfl)
  intro h
  cases h

end Sample

end Services
end Membrane
