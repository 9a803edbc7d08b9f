import Membrane.Transport.Ops

/-!
# Chunked uploads

A sender posts a manifest with the digest of every chunk and of the whole payload, then
puts the chunks in any order.  The node keeps the chunks of unfinished uploads.  When the
last one arrives, the payload is put together and checked against its digest.
-/

namespace Membrane
namespace Transport

open Foundation Store

/-!
# Manifests
-/

structure ChunkManifest where
  contentHash : String
  chunkSize : Int
  totalBytes : Int
  perChunkSha256 : List String
  deriving DecidableEq

def chunkAt (size : Nat) (data : Bytes) (index : Nat) : Bytes :=
  (data.drop (index * size)).take size

def chunksOf (size : Nat) (data : Bytes) : List Bytes :=
  (List.range ((data.length + size - 1) / size)).map (chunkAt size data)

structure ResumeCursor where
  contentHash : String
  nextIndex : Int
  offset : Int
  deriving DecidableEq

namespace ChunkManifest

section Payloads

variable [PayloadDigest]

def fromPayload (payload : Bytes) (contentHash : String) (chunkSize : Int) :
    Except String ChunkManifest :=
  if chunkSize ≤ 0 then
    .error ("chunk_size must be > 0, got " ++ toString chunkSize)
  else
    .ok
      { contentHash := contentHash
        chunkSize := chunkSize
        totalBytes := payload.length
        perChunkSha256 := (chunksOf chunkSize.toNat payload).map PayloadDigest.sha256Hex }

def splitPayload (m : ChunkManifest) (payload : Bytes) : Except String (List Bytes) :=
  if (payload.length : Int) ≠ m.totalBytes then
    .error ("payload length " ++ toString payload.length ++
      " does not match manifest total " ++ toString m.totalBytes)
  else .ok (chunksOf m.chunkSize.toNat payload)

/-- The digest of the chunk is compared, and nothing else. -/
def verifyChunk (m : ChunkManifest) (index : Int) (data : Bytes) : Bool :=
  if 0 ≤ index ∧ index < m.perChunkSha256.length then
    decide (m.perChunkSha256[index.toNat]? = some (PayloadDigest.sha256Hex data))
  else false

end Payloads

end ChunkManifest

/-!
# Transfers
-/

structure ResumableTransfer where
  manifest : ChunkManifest
  cursor : ResumeCursor
  receivedChunks : List Bytes
  deriving DecidableEq

structure CorruptPayloadError where
  index : Int
  cursor : ResumeCursor
  deriving DecidableEq

namespace ResumableTransfer

def new (manifest : ChunkManifest) : ResumableTransfer :=
  { manifest := manifest
    cursor := { contentHash := manifest.contentHash, nextIndex := 0, offset := 0 }
    receivedChunks := [] }

/-- Missing chunks before the new one are held as empty ones. -/
def placeChunk (received : List Bytes) (index : Nat) (data : Bytes) : List Bytes :=
  (received ++ List.replicate (index + 1 - received.length) []).set index data

def feedChunk [PayloadDigest] (t : ResumableTransfer) (index offset : Int) (data : Bytes) :
    Except CorruptPayloadError ResumableTransfer :=
  if t.manifest.verifyChunk index data = false then
    .error { index := index, cursor := t.cursor }
  else
    .ok
      { t with
        receivedChunks := placeChunk t.receivedChunks index.toNat data
        cursor :=
          { contentHash := t.cursor.contentHash, nextIndex := index + 1, offset := offset } }

/-- Only a chunk that is not empty counts as received. -/
def allChunksReceived (t : ResumableTransfer) : Bool :=
  decide (t.manifest.perChunkSha256.length ≤ t.receivedChunks.length) &&
    t.receivedChunks.all (fun chunk => decide (chunk ≠ []))

def assemble (t : ResumableTransfer) : Bytes := t.receivedChunks.flatten

end ResumableTransfer

/-!
# The registry
-/

structure Upload where
  transfer : ResumableTransfer
  sha256 : String
  touched : ℚ
  deriving DecidableEq

def Upload.received (u : Upload) : List Nat :=
  (List.range u.transfer.receivedChunks.length).filter
    (fun index => decide (u.transfer.receivedChunks.getD index [] ≠ []))

inductive UploadError where
  | badManifest
  | tooManyUploads
  | unknownUpload
  | corruptChunk (error : CorruptPayloadError)
  | digestMismatch
  deriving DecidableEq

/-- The text of an error.  The reference in a cursor is shown as it is. -/
def UploadError.message : UploadError -> String
  | badManifest => "manifest does not describe the payload, or it is too large"
  | tooManyUploads => "too many uploads in progress; retry later"
  | unknownUpload => "no upload in progress; post the manifest first"
  | corruptChunk error =>
    "chunk " ++ toString error.index ++
      " sha256 mismatch (cursor at ResumeCursor(content_hash='" ++
      error.cursor.contentHash ++ "', next_index=" ++ toString error.cursor.nextIndex ++
      ", offset=" ++ toString error.cursor.offset ++ "))"
  | digestMismatch => "assembled payload does not match its digest"

def uploadTtlSec : ℚ := 3600

def maxChunkBytes : Int := 8 * 2 ^ 20

structure UploadRegistry where
  maxBytes : Nat
  maxUploads : Nat
  maxStaged : Nat
  uploads : Dict String Upload

namespace UploadRegistry

def create (maxBytes maxUploads maxStaged : Nat) : UploadRegistry :=
  { maxBytes := maxBytes
    maxUploads := maxUploads
    maxStaged := maxStaged
    uploads := Dict.empty }

def expectedChunks (chunkSize totalBytes : Int) : Int :=
  if 0 < chunkSize then -((-totalBytes) / chunkSize) else -1

def expire (r : UploadRegistry) (now : ℚ) : UploadRegistry :=
  { r with uploads := r.uploads.filter (fun _ u => decide (now - uploadTtlSec ≤ u.touched)) }

def stagedBytes (r : UploadRegistry) : Int :=
  (r.uploads.values.map (fun u => u.transfer.manifest.totalBytes)).sum

def stage (r : UploadRegistry) (payloadRef : String) (chunkSize totalBytes : Int)
    (chunks : List String) (sha256 : String) (now : ℚ) :
    Except UploadError (List Nat) × UploadRegistry :=
  if r.maxUploads ≤ r.uploads.size ∨ (r.maxStaged : Int) < r.stagedBytes + totalBytes then
    (.error .tooManyUploads, r)
  else
    (.ok [],
      { r with
        uploads := r.uploads.set payloadRef
          { transfer := ResumableTransfer.new
              { contentHash := payloadRef
                chunkSize := chunkSize
                totalBytes := totalBytes
                perChunkSha256 := chunks }
            sha256 := sha256
            touched := now } })

def badManifest (r : UploadRegistry) (chunkSize totalBytes : Int) (chunks : List String) :
    Prop :=
  ¬ (0 < chunkSize ∧ chunkSize ≤ maxChunkBytes) ∨ (r.maxBytes : Int) < totalBytes ∨
    (chunks.length : Int) ≠ expectedChunks chunkSize totalBytes

instance (r : UploadRegistry) (chunkSize totalBytes : Int) (chunks : List String) :
    Decidable (r.badManifest chunkSize totalBytes chunks) :=
  inferInstanceAs (Decidable (_ ∨ _ ∨ _))

def beginUpload (r : UploadRegistry) (payloadRef : String) (chunkSize totalBytes : Int)
    (chunks : List String) (sha256 : String) (expiredAt now : ℚ) :
    Except UploadError (List Nat) × UploadRegistry :=
  if r.badManifest chunkSize totalBytes chunks then (.error .badManifest, r)
  else
    match (r.expire expiredAt).uploads.get? payloadRef with
    | none => (r.expire expiredAt).stage payloadRef chunkSize totalBytes chunks sha256 now
    | some current =>
      if current.sha256 = sha256 then
        (.ok current.received,
          { r.expire expiredAt with
            uploads := (r.expire expiredAt).uploads.set payloadRef
              { current with touched := now } })
      else (r.expire expiredAt).stage payloadRef chunkSize totalBytes chunks sha256 now

def addChunk [PayloadDigest] (r : UploadRegistry) (payloadRef : String) (index : Int)
    (data : Bytes) (now : ℚ) : Except UploadError (Option Bytes) × UploadRegistry :=
  match r.uploads.get? payloadRef with
  | none => (.error .unknownUpload, r)
  | some upload =>
    match upload.transfer.feedChunk index 0 data with
    | .error e => (.error (.corruptChunk e), r)
    | .ok transfer =>
      if transfer.allChunksReceived = false then
        (.ok none,
          { r with
            uploads := r.uploads.set payloadRef
              { upload with transfer := transfer, touched := now } })
      else
        (if PayloadDigest.sha256Hex transfer.assemble ≠ upload.sha256 then
            .error .digestMismatch
          else .ok (some transfer.assemble),
          { r with uploads := r.uploads.erase payloadRef })

def received (r : UploadRegistry) (payloadRef : String) : List Nat :=
  match r.uploads.get? payloadRef with
  | some upload => upload.received
  | none => []

end UploadRegistry

end Transport
end Membrane
