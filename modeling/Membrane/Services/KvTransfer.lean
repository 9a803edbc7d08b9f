import Membrane.Services.KvRows

/-!
# Transfer of keys and values

A pair of tensors travels as one compressed payload: a magic number, the two lengths and the
bytes of both tensors.  The envelope around it names one shape and one dtype, those of the
key tensor.  The compression libraries are assumed to give back what they were given.
-/

namespace Membrane
namespace Services

open Foundation Store

/-!
# The compression transport
-/

inductive CompressionMethod where
  | raw
  | deflate
  | zstd
  | lz4
  deriving DecidableEq

def CompressionMethod.id : CompressionMethod -> Nat
  | .raw => 1
  | .deflate => 2
  | .zstd => 3
  | .lz4 => 4

class Compressors where
  compress : CompressionMethod -> Nat -> Bytes -> Bytes
  decompress : CompressionMethod -> Bytes -> Except FrameError Bytes
  decompress_compress : forall method level data,
    decompress method (compress method level data) = .ok data

structure CompressionTransport where
  method : CompressionMethod
  level : Nat

section Transfer

variable [Compressors]

def CompressionTransport.body (t : CompressionTransport) (payload : Bytes) : Bytes :=
  match t.method with
  | .raw => payload
  | method => Compressors.compress method t.level payload

def CompressionTransport.compress (t : CompressionTransport) (payload : Bytes) :
    Except FrameError Bytes := do
  let methodId <- structPack 1 t.method.id
  let length <- structPack 4 (t.body payload).length
  return methodId ++ (length ++ t.body payload)

def decompressBody (methodId : Nat) (body : Bytes) : Except FrameError Bytes :=
  match methodId with
  | 1 => .ok body
  | 2 => Compressors.decompress .deflate body
  | 3 => Compressors.decompress .zstd body
  | 4 => Compressors.decompress .lz4 body
  | other => .error (.valueError ("unknown compression method id: " ++ toString other))

/-- Decompression without a bound on the size. -/
def decompress (payload : Bytes) : Except FrameError Bytes :=
  if payload.length < 5 then .error (.valueError "compressed payload too short")
  else do
    let methodId <- unpackFrom 1 payload 0
    let bodyLen <- unpackFrom 4 payload 1
    if payload.length < 5 + bodyLen then .error (.valueError "compressed payload too short")
    else decompressBody methodId (slice payload 5 (5 + bodyLen))

/-!
# The engine
-/

structure TensorHandle where
  data : Bytes
  shape : List Nat
  dtype : String
  deriving DecidableEq

structure TransferEnvelope where
  compressed : Bytes
  compression : CompressionMethod
  shape : List Nat
  dtype : String

structure KVTransferEngine where
  transport : CompressionTransport
  quantizer : Option (TensorHandle -> Except FrameError Bytes)

def transferMagic : Bytes := [0x4D, 0x4B, 0x56, 0x52]

def KVTransferEngine.raw (e : KVTransferEngine) (handle : TensorHandle) :
    Except FrameError Bytes :=
  match e.quantizer with
  | none => .ok handle.data
  | some quantize => quantize handle

def KVTransferEngine.transferKv (e : KVTransferEngine) (k v : TensorHandle) :
    Except FrameError TransferEnvelope := do
  let rawK <- e.raw k
  let rawV <- e.raw v
  let kLen <- structPack 4 rawK.length
  let vLen <- structPack 4 rawV.length
  let compressed <- e.transport.compress (transferMagic ++ (kLen ++ (vLen ++ (rawK ++ rawV))))
  return ⟨compressed, e.transport.method, k.shape, k.dtype⟩

def receiveKv (envelope : TransferEnvelope) :
    Except FrameError (TensorHandle × TensorHandle) := do
  let payload <- decompress envelope.compressed
  if ¬ transferMagic.isPrefixOf payload then
    .error (.valueError ("bad magic in transfer envelope: " ++ reprBytes (payload.take 4)))
  else do
    let kLen <- unpackFrom 4 payload 4
    let vLen <- unpackFrom 4 payload 8
    return (⟨slice payload 12 (12 + kLen), envelope.shape, envelope.dtype⟩,
      ⟨slice payload (12 + kLen) (12 + kLen + vLen), envelope.shape, envelope.dtype⟩)

/-!
# What arrives
-/

variable {t : CompressionTransport} {payload : Bytes}

theorem compress_eq_ok {compressed : Bytes} (h : t.compress payload = .ok compressed) :
    (t.body payload).length < 256 ^ 4 ∧
      compressed = littleEndian 1 t.method.id ++
        (littleEndian 4 (t.body payload).length ++ t.body payload) := by
  obtain ⟨methodId, hid, h⟩ := bind_eq_ok_iff.mp h
  obtain ⟨length, hlength, h⟩ := bind_eq_ok_iff.mp h
  obtain ⟨_, rfl⟩ := structPack_eq_ok hid
  obtain ⟨hlt, rfl⟩ := structPack_eq_ok hlength
  cases h
  exact ⟨hlt, rfl⟩

theorem compress_of_lt (h : (t.body payload).length < 256 ^ 4) :
    t.compress payload = .ok (littleEndian 1 t.method.id ++
      (littleEndian 4 (t.body payload).length ++ t.body payload)) := by
  have hid : t.method.id < 256 ^ 1 := by
    cases t.method <;> decide
  unfold CompressionTransport.compress structPack
  rw [if_pos hid, if_pos h]
  rfl

theorem decompressBody_body (t : CompressionTransport) (payload : Bytes) :
    decompressBody t.method.id (t.body payload) = .ok payload := by
  unfold CompressionTransport.body
  cases t.method with
  | raw => rfl
  | deflate => exact Compressors.decompress_compress .deflate _ _
  | zstd => exact Compressors.decompress_compress .zstd _ _
  | lz4 => exact Compressors.decompress_compress .lz4 _ _

theorem decompress_compress {compressed : Bytes} (h : t.compress payload = .ok compressed) :
    decompress compressed = .ok payload := by
  obtain ⟨hlt, rfl⟩ := compress_eq_ok h
  have hid : t.method.id < 256 ^ 1 := by
    cases t.method <;> decide
  have hmethod : unpackFrom 1 (littleEndian 1 t.method.id ++
      (littleEndian 4 (t.body payload).length ++ t.body payload)) 0 = .ok t.method.id := by
    have hread := unpackFrom_append (length_littleEndian 1 t.method.id) List.length_nil
      (littleEndian 4 (t.body payload).length ++ t.body payload)
    rw [ofLittleEndian_littleEndian hid] at hread
    exact hread
  have hlength : unpackFrom 4 (littleEndian 1 t.method.id ++
      (littleEndian 4 (t.body payload).length ++ t.body payload)) 1 =
        .ok (t.body payload).length := by
    rw [unpackFrom_append (length_littleEndian 4 _) (length_littleEndian 1 _),
      ofLittleEndian_littleEndian hlt]
  have htotal : (littleEndian 1 t.method.id ++
      (littleEndian 4 (t.body payload).length ++ t.body payload)).length =
        5 + (t.body payload).length := by
    rw [List.length_append, List.length_append, length_littleEndian, length_littleEndian]
    omega
  have hbody : slice (littleEndian 1 t.method.id ++
      (littleEndian 4 (t.body payload).length ++ t.body payload)) 5
        (5 + (t.body payload).length) = t.body payload := by
    have hhead : (littleEndian 1 t.method.id ++
        littleEndian 4 (t.body payload).length).length = 5 := by
      rw [List.length_append, length_littleEndian, length_littleEndian]
    rw [← List.append_assoc, slice, List.drop_left' hhead]
    exact List.take_of_length_le (by omega)
  unfold decompress
  rw [if_neg (by omega), hmethod, ok_bind, hlength, ok_bind, if_neg (by omega), hbody]
  exact decompressBody_body t payload

def transferPayload (k v : Bytes) : Bytes :=
  transferMagic ++ (littleEndian 4 k.length ++ (littleEndian 4 v.length ++ (k ++ v)))

theorem receiveKv_of_decompress {envelope : TransferEnvelope} {k v : Bytes}
    (hk : k.length < 256 ^ 4) (hv : v.length < 256 ^ 4)
    (h : decompress envelope.compressed = .ok (transferPayload k v)) :
    receiveKv envelope =
      .ok (⟨k, envelope.shape, envelope.dtype⟩, ⟨v, envelope.shape, envelope.dtype⟩) := by
  have hmagic : transferMagic.isPrefixOf (transferPayload k v) :=
    List.isPrefixOf_iff_prefix.mpr (List.prefix_append _ _)
  have hfour : transferMagic.length = 4 := rfl
  have hkLen : unpackFrom 4 (transferPayload k v) 4 = .ok k.length := by
    unfold transferPayload
    rw [unpackFrom_append (length_littleEndian 4 _) hfour, ofLittleEndian_littleEndian hk]
  have hbefore : (transferMagic ++ littleEndian 4 k.length).length = 8 := rfl
  have hvLen : unpackFrom 4 (transferPayload k v) 8 = .ok v.length := by
    unfold transferPayload
    rw [← List.append_assoc, unpackFrom_append (length_littleEndian 4 _) hbefore,
      ofLittleEndian_littleEndian hv]
  have hdrop : (transferPayload k v).drop 12 = k ++ v := by
    have hhead : (transferMagic ++ littleEndian 4 k.length ++
        littleEndian 4 v.length).length = 12 := rfl
    exact List.drop_left' hhead
  have hsliceK : slice (transferPayload k v) 12 (12 + k.length) = k := by
    rw [slice, Nat.add_sub_cancel_left]
    exact List.take_left' rfl
  have hsliceV : slice (transferPayload k v) (12 + k.length) (12 + k.length + v.length) = v := by
    rw [slice, ← List.drop_drop, hdrop, List.drop_left' rfl, Nat.add_sub_cancel_left,
      List.take_length]
  unfold receiveKv
  rw [h, ok_bind, hkLen, ok_bind, hvLen, ok_bind, hsliceK,
    hsliceV]
  rfl

/-!
# Loss
-/

theorem transferKv_of_lossless {e : KVTransferEngine} (he : e.quantizer = none)
    {k v : TensorHandle} (hk : k.data.length < 256 ^ 4) (hv : v.data.length < 256 ^ 4) :
    e.transferKv k v = (e.transport.compress (transferPayload k.data v.data)).map
      (fun compressed => ⟨compressed, e.transport.method, k.shape, k.dtype⟩) := by
  unfold KVTransferEngine.transferKv KVTransferEngine.raw structPack
  rw [he]
  simp only [ok_bind]
  rw [if_pos hk, if_pos hv, ok_bind]
  show (e.transport.compress (transferPayload k.data v.data) >>= _) = _
  cases e.transport.compress (transferPayload k.data v.data) with
  | error e => rfl
  | ok compressed => rfl

theorem receiveKv_transferKv_iff {e : KVTransferEngine} (he : e.quantizer = none)
    {k v : TensorHandle} (hk : k.data.length < 2 ^ 32) (hv : v.data.length < 2 ^ 32) :
    (exists envelope, e.transferKv k v = .ok envelope ∧ receiveKv envelope = .ok (k, v)) <->
      v.shape = k.shape ∧ v.dtype = k.dtype ∧
        (e.transport.body (transferPayload k.data v.data)).length < 2 ^ 32 := by
  rw [transferKv_of_lossless he hk hv]
  constructor
  · intro h
    obtain ⟨envelope, hsent, hreceived⟩ := h
    cases hcompress : e.transport.compress (transferPayload k.data v.data) with
    | error failure =>
      rw [hcompress] at hsent
      cases hsent
    | ok compressed =>
      rw [hcompress] at hsent
      cases hsent
      rw [receiveKv_of_decompress hk hv (decompress_compress hcompress)] at hreceived
      have hpair := Except.ok.inj hreceived
      have hvalue := congrArg Prod.snd hpair
      exact ⟨(congrArg TensorHandle.shape hvalue).symm,
        (congrArg TensorHandle.dtype hvalue).symm, (compress_eq_ok hcompress).left⟩
  · intro h
    obtain ⟨hshape, hdtype, hbody⟩ := h
    have hcompress := compress_of_lt hbody
    rw [hcompress]
    refine ⟨_, rfl, ?_⟩
    rw [receiveKv_of_decompress hk hv (decompress_compress hcompress)]
    cases v
    cases hshape
    cases hdtype
    rfl

end Transfer

section Sample

@[reducible] def Compressors.identity : Compressors where
  compress _ _ data := data
  decompress _ data := .ok data
  decompress_compress _ _ _ := rfl

attribute [local instance] Compressors.identity

def rawEngine : KVTransferEngine :=
  { transport := { method := .raw, level := 0 }, quantizer := none }

/-- The value tensor arrives under the shape and the dtype of the key tensor. -/
theorem receiveKv_mislabels_value :
    (rawEngine.transferKv ⟨[0, 0], [1], "float16"⟩ ⟨[1, 2, 3, 4], [1, 1], "float32"⟩ >>=
        receiveKv) =
      .ok (⟨[0, 0], [1], "float16"⟩, ⟨[1, 2, 3, 4], [1], "float16"⟩) := by
  decide

theorem receiveKv_transferKv_iff_raw :
    (exists envelope, rawEngine.transferKv ⟨[0, 0], [1], "float16"⟩ ⟨[1, 2], [1], "float16"⟩ =
          .ok envelope ∧
        receiveKv envelope = .ok (⟨[0, 0], [1], "float16"⟩, ⟨[1, 2], [1], "float16"⟩)) <->
      [1] = [1] ∧ "float16" = "float16" ∧
        (rawEngine.transport.body (transferPayload [0, 0] [1, 2])).length < 2 ^ 32 :=
  receiveKv_transferKv_iff rfl (by decide) (by decide)

end Sample

end Services
end Membrane
