import Mathlib.Data.List.GetD
import Membrane.Foundation.Codec
import Membrane.Transport.UploadBounds

/-!
# Resuming an upload

A sender posts its manifest and sends the chunks that the node does not hold yet.  An
upload that is already staged keeps the manifest that it was begun with, so that the
chunks that are missing in it are those of another cut when the chunk sizes differ.
-/

namespace Membrane
namespace Transport

open Foundation Store

/-!
# Cutting a payload
-/

theorem length_chunksOf (size : Nat) (data : Bytes) :
    (chunksOf size data).length = (data.length + size - 1) / size := by
  unfold chunksOf
  rw [List.length_map, List.length_range]

section Pieces

variable {size index : Nat} {data : Bytes}

theorem lt_length_chunksOf (hsize : 0 < size) (data : Bytes) (index : Nat) :
    index < (chunksOf size data).length <-> index * size < data.length := by
  rw [length_chunksOf]
  show index + 1 ≤ _ <-> _
  rw [Nat.le_div_iff_mul_le hsize, Nat.add_mul]
  omega

theorem getElem?_chunksOf (h : index < (chunksOf size data).length) :
    (chunksOf size data)[index]? = some (chunkAt size data index) := by
  rw [length_chunksOf] at h
  unfold chunksOf
  rw [List.getElem?_map, List.getElem?_range h, Option.map_some]

theorem mem_zipIdx_chunksOf_iff {chunk : Bytes} :
    (chunk, index) ∈ (chunksOf size data).zipIdx <->
      index < (chunksOf size data).length ∧ chunkAt size data index = chunk := by
  rw [List.mem_zipIdx_iff_getElem?]
  constructor
  · intro hget
    have hindex : index < (chunksOf size data).length :=
      (List.getElem?_eq_some_iff.mp hget).choose
    rw [getElem?_chunksOf hindex] at hget
    exact ⟨hindex, Option.some.inj hget⟩
  · intro h
    rw [getElem?_chunksOf h.left, h.right]

theorem infix_chunkAt (size : Nat) (data : Bytes) (index : Nat) :
    chunkAt size data index <:+: data :=
  (List.take_prefix _ _).isInfix.trans (List.drop_suffix _ _).isInfix

theorem chunkAt_ne_nil (hsize : 0 < size) (h : index < (chunksOf size data).length) :
    chunkAt size data index ≠ [] := by
  rw [lt_length_chunksOf hsize] at h
  rw [← List.length_pos_iff]
  unfold chunkAt
  rw [List.length_take, List.length_drop]
  omega

theorem chunksOf_nil (hsize : 0 < size) : chunksOf size [] = [] := by
  rw [List.eq_nil_iff_length_eq_zero, length_chunksOf]
  exact Nat.div_eq_of_lt (by rw [List.length_nil]; omega)

theorem length_chunksOf_pos (hsize : 0 < size) (h : data ≠ []) :
    0 < (chunksOf size data).length := by
  rw [lt_length_chunksOf hsize, Nat.zero_mul]
  exact List.length_pos_iff.mpr h

theorem flatten_chunksOf (hsize : 0 < size) (data : Bytes) :
    (chunksOf size data).flatten = data :=
  flatten_slices data hsize

theorem ChunkManifest.infix_of_splitPayload {m : ChunkManifest} {payload : Bytes}
    {chunks : List Bytes} {place : Nat}
    (h : m.splitPayload payload = .ok chunks) (hget : chunks[place]? = some data) :
    data <:+: payload := by
  unfold ChunkManifest.splitPayload at h
  split at h
  · cases h
  · cases h
    rcases List.mem_map.mp (List.mem_of_getElem? hget) with ⟨index, _hindex, heq⟩
    rw [← heq]
    exact infix_chunkAt _ _ _

end Pieces

def UploadRegistry.keepChunk (r : UploadRegistry) (payloadRef : String) (u : Upload)
    (transfer : ResumableTransfer) (now : ℚ) : UploadRegistry :=
  { r with
    uploads := r.uploads.set payloadRef { u with transfer := transfer, touched := now } }

/-!
# Missing chunks
-/

namespace ResumableTransfer

def Misses (t : ResumableTransfer) (index : Nat) : Prop :=
  index < t.manifest.perChunkSha256.length ∧ t.receivedChunks.getD index [] = []

def withChunk (t : ResumableTransfer) (index : Nat) (data : Bytes) : ResumableTransfer :=
  { t with
    receivedChunks := placeChunk t.receivedChunks index data
    cursor := { contentHash := t.cursor.contentHash, nextIndex := index + 1, offset := 0 } }

theorem getD_placeChunk (received : List Bytes) (index : Nat) (data : Bytes) (place : Nat) :
    (placeChunk received index data).getD place [] =
      if place = index then data else received.getD place [] := by
  unfold placeChunk
  rw [List.getD_eq_getElem?_getD, List.getElem?_set, List.length_append,
    List.length_replicate]
  split
  · next heq =>
      rw [if_pos heq.symm, if_pos (by omega), Option.getD_some]
  · next hne =>
      rw [if_neg (Ne.symm hne), List.getD_eq_getElem?_getD]
      rcases Nat.lt_or_ge place received.length with hlt | hge
      · rw [List.getElem?_append_left hlt]
      · rw [List.getElem?_append_right hge, List.getElem?_replicate,
          List.getElem?_eq_none hge]
        split <;> rfl

theorem withChunk_misses_iff (t : ResumableTransfer) (index : Nat) {data : Bytes}
    (hdata : data ≠ []) (place : Nat) :
    (t.withChunk index data).Misses place <-> t.Misses place ∧ place ≠ index := by
  show _ ∧ (placeChunk t.receivedChunks index data).getD place [] = [] <-> _
  rw [getD_placeChunk]
  split_ifs with hplace
  · exact ⟨fun hmisses => absurd hmisses.right hdata,
      fun hmisses => absurd hplace hmisses.right⟩
  · rw [and_iff_left hplace]
    rfl

end ResumableTransfer

/-!
# What a begin leaves
-/

namespace UploadRegistry

section Begun

variable {r after : UploadRegistry} {payloadRef sha256 : String} {chunkSize totalBytes : Int}
  {chunks : List String} {received : List Nat} {expiredAt now : ℚ}

theorem stage_eq_ok
    (h : r.stage payloadRef chunkSize totalBytes chunks sha256 now =
      (.ok received, after)) :
    received = [] ∧ after.uploads.get? payloadRef = some
      { transfer := ResumableTransfer.new
          { contentHash := payloadRef, chunkSize := chunkSize, totalBytes := totalBytes,
            perChunkSha256 := chunks }
        sha256 := sha256
        touched := now } := by
  unfold stage at h
  split at h
  · cases h
  · cases h
    exact ⟨rfl, Dict.get?_set_self _ _ _⟩

theorem beginUpload_eq_ok
    (h : r.beginUpload payloadRef chunkSize totalBytes chunks sha256 expiredAt now =
      (.ok received, after)) :
    exists u, after.uploads.get? payloadRef = some u ∧ received = u.received ∧
      u.sha256 = sha256 ∧
      ((exists staged, (r.expire expiredAt).uploads.get? payloadRef = some staged ∧
          staged.sha256 = sha256 ∧ u.transfer = staged.transfer) ∨
        (forall staged, (r.expire expiredAt).uploads.get? payloadRef = some staged ->
          staged.sha256 ≠ sha256) ∧
        u.transfer = ResumableTransfer.new
          { contentHash := payloadRef, chunkSize := chunkSize, totalBytes := totalBytes,
            perChunkSha256 := chunks }) := by
  unfold beginUpload at h
  split at h
  · cases h
  · split at h
    · next hnone =>
        rcases stage_eq_ok h with ⟨hreceived, hget⟩
        rw [hnone]
        exact ⟨_, hget, hreceived, rfl, Or.inr ⟨fun _ hsome => (by cases hsome), rfl⟩⟩
    · next current hcurrent =>
        split at h
        · next hsame =>
            cases h
            exact ⟨_, Dict.get?_set_self _ _ _, rfl, hsame,
              Or.inl ⟨current, hcurrent, hsame, rfl⟩⟩
        · next hother =>
            rcases stage_eq_ok h with ⟨hreceived, hget⟩
            refine ⟨_, hget, hreceived, rfl, Or.inr ⟨?_, rfl⟩⟩
            intro staged hstaged
            rw [hcurrent] at hstaged
            cases hstaged
            exact hother

end Begun

end UploadRegistry

theorem Upload.not_misses_of_mem_received (u : Upload) {index : Nat} (h : index ∈ u.received) :
    ¬ u.transfer.Misses index := by
  unfold Upload.received at h
  rw [List.mem_filter, decide_eq_true_iff] at h
  exact fun hmisses => h.right hmisses.right

/-!
# Outcomes
-/

inductive UploadOutcome where
  | refused
  | interrupted
  | stored (payload : Bytes)
  deriving DecidableEq

def UploadOutcome.ofSent : Option Bytes -> UploadOutcome
  | some whole => stored whole
  | none => interrupted

theorem UploadOutcome.ofSent_eq_stored_iff (sent : Option Bytes) (payload : Bytes) :
    UploadOutcome.ofSent sent = .stored payload <-> sent = some payload := by
  cases sent with
  | none =>
    constructor
    · intro h
      cases h
    · intro h
      cases h
  | some whole =>
    show UploadOutcome.stored whole = .stored payload <-> _
    rw [UploadOutcome.stored.injEq, Option.some.injEq]

/-!
# Staged chunks of one payload
-/

section Digests

variable [PayloadDigest]

def TellsPiecesApart (payload : Bytes) : Prop :=
  forall piece other, piece <:+: payload -> other <:+: payload ->
    PayloadDigest.sha256Hex piece = PayloadDigest.sha256Hex other -> piece = other

/-- The transfer holds chunks of the payload, cut as its own manifest says. -/
structure ResumableTransfer.Stages (t : ResumableTransfer) (payload : Bytes) : Prop where
  size : 0 < t.manifest.chunkSize.toNat
  digests : t.manifest.perChunkSha256 =
    (chunksOf t.manifest.chunkSize.toNat payload).map PayloadDigest.sha256Hex
  within : t.receivedChunks.length ≤ t.manifest.perChunkSha256.length
  chunks : forall index chunk, t.receivedChunks[index]? = some chunk ->
    chunk = [] ∨ chunk = chunkAt t.manifest.chunkSize.toNat payload index

namespace ResumableTransfer

variable {t : ResumableTransfer} {payload data : Bytes} {index : Nat}

theorem new_stages {m : ChunkManifest} (hsize : 0 < m.chunkSize.toNat)
    (hdigests : m.perChunkSha256 =
      (chunksOf m.chunkSize.toNat payload).map PayloadDigest.sha256Hex) :
    (new m).Stages payload :=
  { size := hsize
    digests := hdigests
    within := Nat.zero_le _
    chunks := by
      intro index chunk hget
      cases hget }

theorem feedChunk_of_verified (t : ResumableTransfer)
    (hverify : t.manifest.verifyChunk index data = true) :
    t.feedChunk index 0 data = .ok (t.withChunk index data) := by
  unfold feedChunk
  rw [if_neg (by rw [hverify]; decide)]
  rfl

theorem feedChunk_of_not_verified (t : ResumableTransfer)
    (hverify : ¬ t.manifest.verifyChunk index data = true) :
    t.feedChunk index 0 data = .error { index := index, cursor := t.cursor } := by
  unfold feedChunk
  rw [if_pos (Bool.eq_false_iff.mpr hverify)]

namespace Stages

section

variable (h : t.Stages payload)

include h

theorem length_digests :
    t.manifest.perChunkSha256.length =
      (chunksOf t.manifest.chunkSize.toNat payload).length := by
  rw [h.digests, List.length_map]

theorem verifyChunk_iff (hapart : TellsPiecesApart payload)
    (hdata : data <:+: payload) (index : Nat) :
    t.manifest.verifyChunk index data = true <->
      index < t.manifest.perChunkSha256.length ∧
        data = chunkAt t.manifest.chunkSize.toNat payload index := by
  unfold ChunkManifest.verifyChunk
  by_cases hindex : index < t.manifest.perChunkSha256.length
  · have hcut := hindex
    rw [h.length_digests] at hcut
    rw [if_pos ⟨Int.natCast_nonneg index, Int.ofNat_lt.mpr hindex⟩, Int.toNat_natCast,
      decide_eq_true_iff]
    rw [and_iff_right hindex]
    rw [h.digests, List.getElem?_map, getElem?_chunksOf hcut, Option.map_some,
      Option.some.injEq]
    constructor
    · intro heq
      exact (hapart _ _ (infix_chunkAt _ _ _) hdata heq).symm
    · intro heq
      rw [heq]
  · rw [if_neg (fun hrange => hindex (Int.ofNat_lt.mp hrange.right))]
    constructor
    · intro hfalse
      cases hfalse
    · intro hboth
      exact absurd hboth.left hindex

theorem withChunk_stages (hindex : index < t.manifest.perChunkSha256.length) :
    (t.withChunk index (chunkAt t.manifest.chunkSize.toNat payload index)).Stages payload := by
  refine { size := h.size, digests := h.digests, within := ?_, chunks := ?_ }
  · show (placeChunk t.receivedChunks index _).length ≤ t.manifest.perChunkSha256.length
    rw [length_placeChunk]
    exact max_le h.within hindex
  · intro place chunk hget
    rcases getElem?_placeChunk hget with ⟨hplace, heq⟩ | hold | hgap
    · rw [hplace, heq]
      exact Or.inr rfl
    · exact h.chunks place chunk hold
    · exact Or.inl hgap

theorem allChunksReceived_iff :
    t.allChunksReceived = true <-> forall index, ¬ t.Misses index := by
  unfold allChunksReceived
  simp only [Bool.and_eq_true, decide_eq_true_eq, List.all_eq_true]
  constructor
  · intro hall index hmisses
    have hlt : index < t.receivedChunks.length := lt_of_lt_of_le hmisses.left hall.left
    have hgap := hmisses.right
    rw [List.getD_eq_getElem _ _ hlt] at hgap
    exact hall.right _ (List.getElem_mem hlt) hgap
  · intro hnone
    constructor
    · rw [← Nat.not_lt]
      intro hlt
      apply hnone t.receivedChunks.length
      exact ⟨hlt, List.getD_eq_default _ _ (le_refl _)⟩
    · intro chunk hchunk hempty
      rcases List.getElem_of_mem hchunk with ⟨index, hlt, hget⟩
      apply hnone index
      refine ⟨lt_of_lt_of_le hlt h.within, ?_⟩
      rw [List.getD_eq_getElem _ _ hlt, hget]
      exact hempty

theorem assemble_eq (hall : t.allChunksReceived = true) :
    t.assemble = payload := by
  have hnone := h.allChunksReceived_iff.mp hall
  have hreceived : t.receivedChunks = chunksOf t.manifest.chunkSize.toNat payload := by
    apply List.ext_getElem?
    intro index
    by_cases hindex : index < t.manifest.perChunkSha256.length
    · have hcut := hindex
      rw [h.length_digests] at hcut
      rw [getElem?_chunksOf hcut]
      cases hget : t.receivedChunks[index]? with
      | none =>
        have hgap : t.receivedChunks.getD index [] = [] := by
          rw [List.getD_eq_getElem?_getD, hget, Option.getD_none]
        exact absurd ⟨hindex, hgap⟩ (hnone index)
      | some chunk =>
        rcases h.chunks index chunk hget with hempty | heq
        · have hgap : t.receivedChunks.getD index [] = [] := by
            rw [List.getD_eq_getElem?_getD, hget, Option.getD_some, hempty]
          exact absurd ⟨hindex, hgap⟩ (hnone index)
        · rw [heq]
    · have hbeyond : t.manifest.perChunkSha256.length ≤ index := Nat.le_of_not_lt hindex
      rw [List.getElem?_eq_none (le_trans h.within hbeyond), List.getElem?_eq_none]
      rw [← h.length_digests]
      exact hbeyond
  unfold assemble
  rw [hreceived, flatten_chunksOf h.size]

end

end Stages

end ResumableTransfer

/-!
# Honest senders
-/

structure Upload.Carries (u : Upload) (payload : Bytes) : Prop where
  stages : u.transfer.Stages payload
  sha256 : u.sha256 = PayloadDigest.sha256Hex payload
  unfinished : payload ≠ [] -> exists index, u.transfer.Misses index

theorem Upload.Carries.congr {u v : Upload} {payload : Bytes} (hv : v.Carries payload)
    (htransfer : u.transfer = v.transfer) (hsha : u.sha256 = PayloadDigest.sha256Hex payload) :
    u.Carries payload := by
  refine { stages := ?_, sha256 := hsha, unfinished := ?_ }
  · rw [htransfer]
    exact hv.stages
  · rw [htransfer]
    exact hv.unfinished

theorem Upload.Carries.withTransfer {u : Upload} {payload : Bytes} {t : ResumableTransfer}
    (hu : u.Carries payload) (hstages : t.Stages payload)
    (hmisses : payload ≠ [] -> exists index, t.Misses index) (now : ℚ) :
    Upload.Carries { u with transfer := t, touched := now } payload :=
  { stages := hstages
    sha256 := hu.sha256
    unfinished := hmisses }

/-- The calls under the reference are those of senders of the payload. -/
def UploadCall.Honest (payloadRef : String) (payload : Bytes) : UploadCall -> Prop
  | .beginUpload ref chunkSize totalBytes chunks sha256 _ _ =>
    ref = payloadRef ->
      exists m, ChunkManifest.fromPayload payload ref chunkSize = .ok m ∧
        totalBytes = m.totalBytes ∧ chunks = m.perChunkSha256 ∧
        sha256 = PayloadDigest.sha256Hex payload
  | .addChunk ref index data _ =>
    ref = payloadRef ->
      exists chunkSize m chunks,
        ChunkManifest.fromPayload payload ref chunkSize = .ok m ∧
        m.splitPayload payload = .ok chunks ∧
        exists place : Nat, index = place ∧ chunks[place]? = some data

def UploadRegistry.Stages (payloadRef : String) (payload : Bytes) (r : UploadRegistry) :
    Prop :=
  forall u, r.uploads.get? payloadRef = some u -> u.Carries payload

theorem ChunkManifest.fromPayload_eq_ok {m : ChunkManifest} {payload : Bytes}
    {contentHash : String} {chunkSize : Int}
    (h : ChunkManifest.fromPayload payload contentHash chunkSize = .ok m) :
    0 < chunkSize.toNat ∧ m.contentHash = contentHash ∧ m.chunkSize = chunkSize ∧
      m.totalBytes = payload.length ∧
      m.perChunkSha256 =
        (chunksOf chunkSize.toNat payload).map PayloadDigest.sha256Hex := by
  unfold ChunkManifest.fromPayload at h
  split at h
  · cases h
  · cases h
    refine ⟨?_, rfl, rfl, rfl, rfl⟩
    omega

namespace UploadRegistry

variable {r : UploadRegistry} {u : Upload} {m : ChunkManifest} {payloadRef : String}
  {payload data : Bytes} {index : Nat} {chunkSize : Int}

theorem addChunk_of_carries (hget : r.uploads.get? payloadRef = some u) (hu : u.Carries payload)
    (hapart : TellsPiecesApart payload) (hdata : data <:+: payload) (place : Nat) (now : ℚ) :
    (exists e, r.addChunk payloadRef place data now = (.error e, r) ∧
        ¬ (place < u.transfer.manifest.perChunkSha256.length ∧
          data = chunkAt u.transfer.manifest.chunkSize.toNat payload place)) ∨
      (place < u.transfer.manifest.perChunkSha256.length ∧
        data = chunkAt u.transfer.manifest.chunkSize.toNat payload place ∧
        ((r.addChunk payloadRef place data now = (.ok none,
              r.keepChunk payloadRef u (u.transfer.withChunk place data)
                now) ∧
            exists index, (u.transfer.withChunk place data).Misses index) ∨
          (r.addChunk payloadRef place data now = (.ok (some payload),
              { r with uploads := r.uploads.erase payloadRef }) ∧
            forall index,
              ¬ (u.transfer.withChunk place data).Misses index))) := by
  have hverify := hu.stages.verifyChunk_iff hapart hdata place
  unfold addChunk
  simp only [hget]
  by_cases haccepted : u.transfer.manifest.verifyChunk place data = true
  · rcases hverify.mp haccepted with ⟨hplace, heq⟩
    have hstages : (u.transfer.withChunk place data).Stages payload := by
      rw [heq]
      exact hu.stages.withChunk_stages hplace
    have hall := hstages.allChunksReceived_iff
    rw [ResumableTransfer.feedChunk_of_verified u.transfer haccepted]
    simp only
    refine Or.inr ⟨hplace, heq, ?_⟩
    by_cases hcomplete :
        (u.transfer.withChunk place data).allChunksReceived = true
    · right
      rw [if_neg (by rw [hcomplete]; decide), hstages.assemble_eq hcomplete, hu.sha256,
        if_neg (fun hne => hne rfl)]
      exact ⟨rfl, hall.mp hcomplete⟩
    · left
      rw [if_pos (Bool.eq_false_iff.mpr hcomplete)]
      refine ⟨rfl, ?_⟩
      rw [hall] at hcomplete
      exact Classical.not_forall_not.mp hcomplete
  · rw [ResumableTransfer.feedChunk_of_not_verified u.transfer haccepted]
    exact Or.inl ⟨_, rfl, fun hboth => haccepted (hverify.mpr hboth)⟩

theorem Stages.of_set (hu : u.Carries payload) {kept : Dict String Upload} :
    Stages payloadRef payload { r with uploads := kept.set payloadRef u } := by
  intro v hget
  rw [Dict.get?_set_self] at hget
  cases hget
  exact hu

section

variable {ref : String} (h : Stages payloadRef payload r)

include h

theorem Stages.set_other (u : Upload) (hne : ref ≠ payloadRef) :
    Stages payloadRef payload { r with uploads := r.uploads.set ref u } := by
  intro v hget
  apply h v
  rw [← hget]
  exact (Dict.get?_set_of_ne _ u (Ne.symm hne)).symm

theorem Stages.keep (kept : String -> Upload -> Bool) :
    Stages payloadRef payload { r with uploads := r.uploads.filter kept } := by
  intro v hget
  exact h v ((r.uploads.get?_filter_eq_some_iff kept payloadRef v).mp hget).left

theorem Stages.stage_other (chunkSize totalBytes : Int)
    (chunks : List String) (sha256 : String) (now : ℚ) (hne : ref ≠ payloadRef) :
    Stages payloadRef payload (r.stage ref chunkSize totalBytes chunks sha256 now).2 := by
  unfold stage
  split
  · exact h
  · exact h.set_other _ hne

end

section

variable {ref : String} (hm : ChunkManifest.fromPayload payload ref chunkSize = .ok m)

include hm

theorem carries_of_fromPayload (now : ℚ) :
    Upload.Carries
      { transfer := ResumableTransfer.new m
        sha256 := PayloadDigest.sha256Hex payload
        touched := now } payload := by
  rcases ChunkManifest.fromPayload_eq_ok hm with ⟨hsize, _hhash, hchunk, _htotal, hdigests⟩
  have hstages : (ResumableTransfer.new m).Stages payload :=
    ResumableTransfer.new_stages (by rw [hchunk]; exact hsize)
      (by rw [hchunk]; exact hdigests)
  refine { stages := hstages, sha256 := rfl, unfinished := ?_ }
  intro hpayload
  refine ⟨0, ?_, rfl⟩
  rw [hstages.length_digests]
  exact length_chunksOf_pos hstages.size hpayload

theorem eq_of_fromPayload :
    { contentHash := ref, chunkSize := chunkSize, totalBytes := m.totalBytes,
      perChunkSha256 := m.perChunkSha256 } = m := by
  rcases ChunkManifest.fromPayload_eq_ok hm with ⟨_hsize, hhash, hchunk, _htotal, _hdigests⟩
  rw [← hhash, ← hchunk]

end

theorem Stages.handle (h : Stages payloadRef payload r) (hapart : TellsPiecesApart payload)
    (call : UploadCall) (hcall : call.Honest payloadRef payload) :
    Stages payloadRef payload (r.handle call) := by
  cases call with
  | beginUpload ref chunkSize totalBytes chunks sha256 expiredAt now =>
    have hexpired : Stages payloadRef payload (r.expire expiredAt) := h.keep _
    have hstage : Stages payloadRef payload
        ((r.expire expiredAt).stage ref chunkSize totalBytes chunks sha256 now).2 := by
      by_cases href : ref = payloadRef
      · rcases hcall href with ⟨m, hm, htotal, hchunks, hsha⟩
        unfold stage
        split
        · exact hexpired
        · rw [htotal, hchunks, hsha, eq_of_fromPayload hm, href]
          exact Stages.of_set (carries_of_fromPayload hm now)
      · exact hexpired.stage_other _ _ _ _ _ href
    show Stages payloadRef payload (r.beginUpload _ _ _ _ _ _ _).2
    unfold UploadRegistry.beginUpload
    split
    · exact h
    · split
      · exact hstage
      · next current hget =>
          split
          · by_cases href : ref = payloadRef
            · rw [href] at hget ⊢
              have hcurrent := hexpired current hget
              exact Stages.of_set
                (hcurrent.withTransfer hcurrent.stages hcurrent.unfinished now)
            · exact hexpired.set_other _ href
          · exact hstage
  | addChunk ref index data now =>
    show Stages payloadRef payload (r.addChunk ref index data now).2
    by_cases href : ref = payloadRef
    · rcases hcall href with ⟨chunkSize, m, chunks, _hm, hsplit, place, hindex, hchunk⟩
      have hdata := ChunkManifest.infix_of_splitPayload hsplit hchunk
      rw [href, hindex]
      cases hget : r.uploads.get? payloadRef with
      | none =>
        unfold UploadRegistry.addChunk
        rw [hget]
        exact h
      | some u =>
        have hu := h u hget
        rcases addChunk_of_carries hget hu hapart hdata place now with
          ⟨e, heq, _hrejected⟩ | ⟨hplace, hcut, ⟨heq, hmisses⟩ | ⟨heq, _hnone⟩⟩
        · rw [heq]
          exact h
        · rw [heq]
          have hstages := hu.stages.withChunk_stages hplace
          rw [← hcut] at hstages
          exact Stages.of_set (hu.withTransfer hstages (fun _hpayload => hmisses) now)
        · rw [heq]
          exact h.keep (fun key _ => decide (key ≠ payloadRef))
    · unfold UploadRegistry.addChunk
      split
      · exact h
      · split
        · exact h
        · split
          · exact h.set_other _ href
          · exact h.keep (fun key _ => decide (key ≠ ref))

/-!
# One sender
-/

/-- Send the chunks that the node did not report, until one of them completes the upload.
A refused chunk does not stop the sender. -/
def sendMissing (payloadRef : String) (received : List Nat) (sentAt : Nat -> ℚ) :
    UploadRegistry -> List (Bytes × Nat) -> Option Bytes × UploadRegistry
  | r, [] => (none, r)
  | r, (chunk, index) :: rest =>
    if index ∈ received then sendMissing payloadRef received sentAt r rest
    else
      match r.addChunk payloadRef index chunk (sentAt index) with
      | (.ok (some whole), after) => (some whole, after)
      | (_, after) => sendMissing payloadRef received sentAt after rest

def putBlobResumable (r : UploadRegistry) (payloadRef : String) (data : Bytes)
    (chunkSize : Int) (expiredAt beganAt : ℚ) (sentAt : Nat -> ℚ) :
    UploadOutcome × UploadRegistry :=
  match ChunkManifest.fromPayload data payloadRef chunkSize with
  | .error _ => (.refused, r)
  | .ok m =>
    match r.beginUpload payloadRef chunkSize data.length m.perChunkSha256
        (PayloadDigest.sha256Hex data) expiredAt beganAt with
    | (.error _, after) => (.refused, after)
    | (.ok received, after) =>
      let sent := sendMissing payloadRef received sentAt after
        (chunksOf chunkSize.toNat data).zipIdx
      (.ofSent sent.1, sent.2)

/-- The sender completes an upload exactly when it sends every chunk that is missing in
it, as the staged manifest cuts it. -/
theorem sendMissing_eq_some_iff (hapart : TellsPiecesApart payload) (hpayload : payload ≠ [])
    (received : List Nat) (sentAt : Nat -> ℚ) (chunks : List (Bytes × Nat))
    (hpieces : forall e, e ∈ chunks -> e.1 <:+: payload)
    (hget : r.uploads.get? payloadRef = some u) (hu : u.Carries payload)
    (hreceived : forall index, index ∈ received -> ¬ u.transfer.Misses index) :
    (sendMissing payloadRef received sentAt r chunks).1 = some payload <->
      forall index, u.transfer.Misses index ->
        (chunkAt u.transfer.manifest.chunkSize.toNat payload index, index) ∈ chunks := by
  induction chunks generalizing r u with
  | nil =>
    rcases hu.unfinished hpayload with ⟨index, hmisses⟩
    exact iff_of_false nofun fun hall => nomatch hall index hmisses
  | cons first rest ih =>
    rcases first with ⟨chunk, place⟩
    have hrest : forall e, e ∈ rest -> e.1 <:+: payload :=
      fun e he => hpieces e (List.mem_cons_of_mem _ he)
    rw [sendMissing]
    split_ifs with hskip
    · rw [ih hrest hget hu hreceived]
      refine forall₂_congr fun index hmisses => ?_
      rw [List.mem_cons, or_iff_right]
      intro heq
      rw [(Prod.mk.inj heq).right] at hmisses
      exact hreceived place hskip hmisses
    · have hdata : chunk <:+: payload := hpieces (chunk, place) List.mem_cons_self
      have hchunk : place < u.transfer.manifest.perChunkSha256.length ->
          chunk = chunkAt u.transfer.manifest.chunkSize.toNat payload place ->
            chunk ≠ [] := by
        intro hplace hcut
        rw [hu.stages.length_digests] at hplace
        rw [hcut]
        exact chunkAt_ne_nil hu.stages.size hplace
      rcases addChunk_of_carries hget hu hapart hdata place (sentAt place) with
        ⟨e, heq, hrejected⟩ | ⟨hplace, hcut, ⟨heq, hmore⟩ | ⟨heq, hnone⟩⟩
      · simp only [heq]
        rw [ih hrest hget hu hreceived]
        refine forall₂_congr fun index hmisses => ?_
        rw [List.mem_cons, or_iff_right]
        intro hfirst
        rcases Prod.mk.inj hfirst with ⟨hchunk, hindex⟩
        rw [hindex] at hchunk hmisses
        exact hrejected ⟨hmisses.left, hchunk.symm⟩
      · simp only [heq]
        have hstages := hu.stages.withChunk_stages hplace
        rw [← hcut] at hstages
        have hmisses_iff := ResumableTransfer.withChunk_misses_iff u.transfer place
          (hchunk hplace hcut)
        rw [ih hrest (Dict.get?_set_self _ _ _)
          (hu.withTransfer hstages (fun _hpayload => hmore) (sentAt place))
          (fun index hindex hmisses =>
            hreceived index hindex ((hmisses_iff index).mp hmisses).left)]
        constructor
        · intro hall index hmisses
          by_cases hindex : index = place
          · rw [hindex, ← hcut]
            exact List.mem_cons_self
          · exact List.mem_cons_of_mem _
              (hall index ((hmisses_iff index).mpr ⟨hmisses, hindex⟩))
        · intro hall index hmisses
          rcases (hmisses_iff index).mp hmisses with ⟨hbefore, hindex⟩
          rcases List.mem_cons.mp (hall index hbefore) with hfirst | hmem
          · exact absurd (Prod.mk.inj hfirst).right hindex
          · exact hmem
      · simp only [heq]
        refine iff_of_true trivial ?_
        intro index hmisses
        by_cases hindex : index = place
        · rw [hindex, ← hcut]
          exact List.mem_cons_self
        · exact absurd ((ResumableTransfer.withChunk_misses_iff _ _ (hchunk hplace hcut)
            index).mpr ⟨hmisses, hindex⟩) (hnone index)

/-- The chunks that an upload in progress still misses are chunks of the sender's cut. -/
def SameCut (r : UploadRegistry) (payloadRef : String) (payload : Bytes) (chunkSize : Int)
    (expiredAt : ℚ) : Prop :=
  forall staged, (r.expire expiredAt).uploads.get? payloadRef = some staged ->
    forall index, staged.transfer.Misses index ->
      index < (chunksOf chunkSize.toNat payload).length ∧
        chunkAt chunkSize.toNat payload index =
          chunkAt staged.transfer.manifest.chunkSize.toNat payload index

/-- A begin that is not refused leaves an unfinished upload of the payload.  The sender
cuts the payload as needed for it exactly when it does so for the upload before. -/
theorem carries_of_beginUpload (h : Stages payloadRef payload r) {after : UploadRegistry}
    {received : List Nat} {expiredAt now : ℚ}
    (hm : ChunkManifest.fromPayload payload payloadRef chunkSize = .ok m)
    (hbegin : r.beginUpload payloadRef chunkSize payload.length m.perChunkSha256
      (PayloadDigest.sha256Hex payload) expiredAt now = (.ok received, after)) :
    exists u, after.uploads.get? payloadRef = some u ∧ received = u.received ∧
      u.Carries payload ∧
      (r.SameCut payloadRef payload chunkSize expiredAt <->
        forall index, u.transfer.Misses index ->
          (chunkAt u.transfer.manifest.chunkSize.toNat payload index, index) ∈
            (chunksOf chunkSize.toNat payload).zipIdx) := by
  have hexpired : Stages payloadRef payload (r.expire expiredAt) := h.keep _
  rcases ChunkManifest.fromPayload_eq_ok hm with ⟨_hsize, _hhash, hchunk, htotal, _hdigests⟩
  rcases beginUpload_eq_ok hbegin with ⟨u, hget, hreceived, hsha, hstaged | hnew⟩
  · rcases hstaged with ⟨staged, hbefore, _hsame, htransfer⟩
    have hcarries := hexpired staged hbefore
    refine ⟨u, hget, hreceived, hcarries.congr htransfer hsha, ?_⟩
    rw [htransfer]
    constructor
    · intro hcut index hmisses
      exact mem_zipIdx_chunksOf_iff.mpr (hcut staged hbefore index hmisses)
    · intro hall other hother index hmisses
      rw [hbefore] at hother
      cases hother
      exact mem_zipIdx_chunksOf_iff.mp (hall index hmisses)
  · rcases hnew with ⟨hnone, htransfer⟩
    rw [← htotal, eq_of_fromPayload hm] at htransfer
    have hu : u.Carries payload := (carries_of_fromPayload hm now).congr htransfer hsha
    refine ⟨u, hget, hreceived, hu, iff_of_true ?_ ?_⟩
    · intro staged hbefore
      exact absurd (hexpired staged hbefore).sha256 (hnone staged hbefore)
    · intro index hmisses
      have hindex := hmisses.left
      rw [hu.stages.length_digests] at hindex
      have hsame : u.transfer.manifest.chunkSize = chunkSize := by
        rw [htransfer]
        exact hchunk
      rw [hsame] at hindex ⊢
      exact mem_zipIdx_chunksOf_iff.mpr ⟨hindex, rfl⟩

theorem run_stages (maxBytes maxUploads maxStaged : Nat) {history : List UploadCall}
    (hapart : TellsPiecesApart payload)
    (hhonest : forall call, call ∈ history -> call.Honest payloadRef payload) :
    Stages payloadRef payload (run handle (create maxBytes maxUploads maxStaged) history) := by
  have halong : Along handle (fun _ call => call.Honest payloadRef payload)
      (create maxBytes maxUploads maxStaged) history :=
    along_of_mem (fun _ call hcall => hhonest call hcall) _
  apply run_of_along (Stages payloadRef payload) _ _ halong
  · intro r call hr hcall
    exact hr.handle hapart call hcall
  · intro u hget
    cases hget

theorem Stages.putBlobResumable_eq_stored_iff (hr : Stages payloadRef payload r)
    (hapart : TellsPiecesApart payload) {beganAt : ℚ} {sentAt : Nat -> ℚ}
    (hstarted : (r.putBlobResumable payloadRef payload chunkSize expiredAt beganAt
      sentAt).1 ≠ .refused) :
    (r.putBlobResumable payloadRef payload chunkSize expiredAt beganAt sentAt).1 =
        .stored payload <->
      payload ≠ [] ∧ r.SameCut payloadRef payload chunkSize expiredAt := by
  unfold putBlobResumable at hstarted ⊢
  split at hstarted
  · exact absurd rfl hstarted
  · rename_i m hm
    rcases hbegin : r.beginUpload payloadRef chunkSize payload.length m.perChunkSha256
      (PayloadDigest.sha256Hex payload) expiredAt beganAt with ⟨answer, after⟩
    rw [hbegin] at hstarted
    cases answer with
    | error e => exact absurd rfl hstarted
    | ok received =>
      rcases carries_of_beginUpload hr hm hbegin with ⟨u, hget, hreceived, hu, hcut⟩
      rw [UploadOutcome.ofSent_eq_stored_iff, hcut]
      by_cases hpayload : payload = []
      · rw [hpayload, chunksOf_nil (ChunkManifest.fromPayload_eq_ok hm).left]
        exact iff_of_false (fun h => (by cases h)) (fun h => h.left rfl)
      · rw [and_iff_right hpayload]
        apply sendMissing_eq_some_iff hapart hpayload received sentAt _ _ hget hu
        · intro index hindex
          rw [hreceived] at hindex
          exact u.not_misses_of_mem_received hindex
        · intro e he
          rw [← (mem_zipIdx_chunksOf_iff.mp he).right]
          exact infix_chunkAt _ _ _

theorem putBlobResumable_stores_iff (maxBytes maxUploads maxStaged : Nat)
    (history : List UploadCall) (payloadRef : String) (payload : Bytes) (chunkSize : Int)
    (expiredAt beganAt : ℚ) (sentAt : Nat -> ℚ) (hapart : TellsPiecesApart payload)
    (hhonest : forall call, call ∈ history -> call.Honest payloadRef payload)
    (hstarted : (putBlobResumable
      (run handle (create maxBytes maxUploads maxStaged) history) payloadRef payload
      chunkSize expiredAt beganAt sentAt).1 ≠ .refused) :
    (putBlobResumable (run handle (create maxBytes maxUploads maxStaged) history)
        payloadRef payload chunkSize expiredAt beganAt sentAt).1 = .stored payload <->
      payload ≠ [] ∧
        SameCut (run handle (create maxBytes maxUploads maxStaged) history) payloadRef
          payload chunkSize expiredAt := by
  have hr := run_stages maxBytes maxUploads maxStaged hapart hhonest
  exact hr.putBlobResumable_eq_stored_iff hapart hstarted

end UploadRegistry

end Digests

@[reducible] def PayloadDigest.verbatim : PayloadDigest where
  sha256Hex data := String.ofList (data.map Char.ofUInt8)

theorem PayloadDigest.verbatim_injective :
    Function.Injective PayloadDigest.verbatim.sha256Hex := by
  intro data other h
  refine List.map_injective_iff.mpr ?_ (String.ofList_injective h)
  intro byte first hbyte
  exact UInt8.toUInt32_inj.mp (congrArg Char.val hbyte)

/-!
# Senders with one chunk size and with two
-/

section Samples

attribute [local instance] PayloadDigest.verbatim

def halfSent : List UploadCall :=
  [.beginUpload "r" 2 3 ["\x01\x02", "\x04"] "\x01\x02\x04" 0 0,
    .addChunk "r" 0 [1, 2] 1]

theorem halfSent_honest (call : UploadCall) (h : call ∈ halfSent) :
    call.Honest "r" [1, 2, 4] := by
  rcases List.mem_cons.mp h with hbegin | hrest
  · rw [hbegin]
    intro _href
    exact ⟨_, rfl, rfl, by decide, by decide⟩
  · rw [List.mem_singleton.mp hrest]
    intro _href
    exact ⟨2, _, _, rfl, rfl, 0, rfl, by decide⟩

theorem halfSent_completed :
    (UploadRegistry.putBlobResumable
      (run UploadRegistry.handle (UploadRegistry.create 8 4 8) halfSent) "r" [1, 2, 4] 2
      2 2 (fun _ => 3)).1 = .stored [1, 2, 4] := by
  have hiff := UploadRegistry.putBlobResumable_stores_iff 8 4 8 halfSent "r" [1, 2, 4] 2
    2 2 (fun _ => 3) (fun _ _ _ _ heq => PayloadDigest.verbatim_injective heq)
    halfSent_honest (by decide +kernel)
  refine hiff.mpr ⟨by decide, ?_⟩
  intro staged hget index hmisses
  have hmanifest : (((run UploadRegistry.handle (UploadRegistry.create 8 4 8)
      halfSent).expire 2).uploads.get? "r").map (fun u => u.transfer.manifest) =
      some { contentHash := "r", chunkSize := 2, totalBytes := 3,
             perChunkSha256 := ["\x01\x02", "\x04"] } := by
    decide +kernel
  rw [hget, Option.map_some] at hmanifest
  have hstaged := Option.some.inj hmanifest
  refine ⟨?_, ?_⟩
  · have hindex := hmisses.left
    rw [hstaged] at hindex
    exact hindex
  · rw [hstaged]

theorem halfSent_interrupted :
    (forall call, call ∈ halfSent -> call.Honest "r" [1, 2, 4]) ∧
      (UploadRegistry.putBlobResumable
        (run UploadRegistry.handle (UploadRegistry.create 8 4 8) halfSent) "r" [1, 2, 4] 3
        2 2 (fun _ => 3)).1 = .interrupted ∧
      (UploadRegistry.putBlobResumable (UploadRegistry.create 8 4 8) "r" [] 2
        2 2 (fun _ => 3)).1 = .interrupted := by
  refine ⟨halfSent_honest, ?_, ?_⟩
  · decide +kernel
  · decide +kernel

end Samples

end Transport
end Membrane
