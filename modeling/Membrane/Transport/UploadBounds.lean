import Mathlib.Algebra.BigOperators.Ring.Finset
import Membrane.Transport.Uploads

/-!
# What unfinished uploads hold

The limits are checked against the sizes that a manifest declares.  A chunk is only
compared with its digest, so that the limits bound what is held as long as the chunks have
the lengths that their manifests give them, and no manifest declares a negative size.
-/

namespace Membrane
namespace Transport

open Foundation Store

/-!
# Declared lengths
-/

namespace ChunkManifest

def declaredLength (m : ChunkManifest) (index : Nat) : Int :=
  min m.chunkSize (m.totalBytes - index * m.chunkSize)

structure Accepted (m : ChunkManifest) (maxBytes : Nat) : Prop where
  size : 0 < m.chunkSize
  nonneg : 0 ≤ m.totalBytes
  bounded : m.totalBytes ≤ maxBytes
  count : (m.perChunkSha256.length : Int) =
    UploadRegistry.expectedChunks m.chunkSize m.totalBytes

namespace Accepted

variable {m : ChunkManifest} {maxBytes : Nat}

theorem covers (h : m.Accepted maxBytes) :
    m.totalBytes ≤ m.perChunkSha256.length * m.chunkSize ∧
      m.perChunkSha256.length * m.chunkSize < m.totalBytes + m.chunkSize := by
  have hsize := h.size
  have hcount := h.count
  unfold UploadRegistry.expectedChunks at hcount
  rw [if_pos hsize] at hcount
  rw [hcount, Int.neg_mul]
  have hle := Int.ediv_mul_le (-m.totalBytes) (ne_of_gt hsize)
  have hlt := Int.lt_ediv_add_one_mul_self (-m.totalBytes) hsize
  rw [Int.add_mul] at hlt
  omega

theorem chunk_starts (h : m.Accepted maxBytes) {index : Nat}
    (hindex : index < m.perChunkSha256.length) : index * m.chunkSize < m.totalBytes := by
  have hcovers := h.covers.right
  have hstep : (index + 1 : Int) * m.chunkSize ≤ m.perChunkSha256.length * m.chunkSize :=
    Int.mul_le_mul_of_nonneg_right (by omega) (le_of_lt h.size)
  rw [Int.add_mul] at hstep
  omega

end Accepted

end ChunkManifest

/-!
# One upload
-/

namespace Upload

def heldBytes (u : Upload) : Int :=
  (u.transfer.receivedChunks.map (fun chunk => (chunk.length : Int))).sum

end Upload

structure ResumableTransfer.Declared (t : ResumableTransfer) (maxBytes : Nat) : Prop where
  manifest : t.manifest.Accepted maxBytes
  within : t.receivedChunks.length ≤ t.manifest.perChunkSha256.length
  lengths : forall index chunk, t.receivedChunks[index]? = some chunk -> chunk ≠ [] ->
    (chunk.length : Int) = t.manifest.declaredLength index

namespace ResumableTransfer.Declared

variable {t : ResumableTransfer} {maxBytes : Nat}

/-- The first chunks together are no longer than the part of the payload they stand for.
When no chunk is missing, they are exactly that part. -/
theorem sum_take (h : t.Declared maxBytes) (count : Nat)
    (hcount : count ≤ t.receivedChunks.length) :
    ((t.receivedChunks.take count).map (fun chunk => (chunk.length : Int))).sum ≤
        min (count * t.manifest.chunkSize) t.manifest.totalBytes ∧
      ((forall chunk, chunk ∈ t.receivedChunks -> chunk ≠ []) ->
        ((t.receivedChunks.take count).map (fun chunk => (chunk.length : Int))).sum =
          min (count * t.manifest.chunkSize) t.manifest.totalBytes) := by
  induction count with
  | zero =>
    have hnonneg := h.manifest.nonneg
    rw [List.take_zero, List.map_nil, List.sum_nil, Nat.cast_zero, Int.zero_mul]
    omega
  | succ count ih =>
    have hlt : count < t.receivedChunks.length := hcount
    have hstart := h.manifest.chunk_starts (lt_of_lt_of_le hlt h.within)
    have hsize := h.manifest.size
    obtain ⟨hle, heq⟩ := ih (le_of_lt hlt)
    rw [List.take_add_one, List.getElem?_eq_getElem hlt, Option.toList_some, List.map_append,
      List.sum_append, List.map_singleton, List.sum_singleton]
    rw [Nat.cast_succ, Int.add_mul, Int.one_mul]
    by_cases hempty : t.receivedChunks[count] = []
    · refine ⟨?_, fun hfull => absurd hempty (hfull _ (List.getElem_mem hlt))⟩
      rw [hempty]
      simp only [List.length_nil, Nat.cast_zero]
      omega
    · have hlength := h.lengths count _ (List.getElem?_eq_getElem hlt) hempty
      unfold ChunkManifest.declaredLength at hlength
      refine ⟨by omega, fun hfull => ?_⟩
      have hbefore := heq hfull
      omega

theorem heldBytes_le (h : t.Declared maxBytes) :
    (t.receivedChunks.map (fun chunk => (chunk.length : Int))).sum ≤
      t.manifest.totalBytes := by
  have hall := (h.sum_take t.receivedChunks.length (le_refl _)).left
  rw [List.take_length] at hall
  exact le_trans hall (min_le_right _ _)

theorem length_assemble (h : t.Declared maxBytes) (hall : t.allChunksReceived = true) :
    (t.assemble.length : Int) = t.manifest.totalBytes := by
  unfold ResumableTransfer.allChunksReceived at hall
  simp only [Bool.and_eq_true, decide_eq_true_eq, List.all_eq_true] at hall
  rcases hall with ⟨hcount, hfull⟩
  have hcovers := h.manifest.covers.left
  have hsum := (h.sum_take t.receivedChunks.length (le_refl _)).right hfull
  rw [List.take_length, le_antisymm h.within hcount, min_eq_right hcovers] at hsum
  rw [← hsum]
  unfold ResumableTransfer.assemble
  rw [List.length_flatten, Nat.cast_list_sum, List.map_map]
  rfl

end ResumableTransfer.Declared

variable {data : Bytes} {index : Int}

namespace ResumableTransfer

theorem new_declared {m : ChunkManifest} {maxBytes : Nat} (h : m.Accepted maxBytes) :
    (new m).Declared maxBytes :=
  { manifest := h
    within := Nat.zero_le _
    lengths := by
      intro index chunk hget _hchunk
      cases hget }

theorem getElem?_placeChunk {received : List Bytes} {index place : Nat} {chunk : Bytes}
    (h : (placeChunk received index data)[place]? = some chunk) :
    place = index ∧ chunk = data ∨ received[place]? = some chunk ∨ chunk = [] := by
  unfold placeChunk at h
  rw [List.getElem?_set] at h
  split at h
  · next heq =>
      split at h
      · exact Or.inl ⟨heq.symm, (Option.some.inj h).symm⟩
      · cases h
  · next hne =>
      rcases Nat.lt_or_ge place received.length with hlt | hge
      · rw [List.getElem?_append_left hlt] at h
        exact Or.inr (Or.inl h)
      · rw [List.getElem?_append_right hge, List.getElem?_replicate] at h
        split at h
        · exact Or.inr (Or.inr (Option.some.inj h).symm)
        · cases h

theorem length_placeChunk (received : List Bytes) (index : Nat) (data : Bytes) :
    (placeChunk received index data).length = max received.length (index + 1) := by
  unfold placeChunk
  rw [List.length_set, List.length_append, List.length_replicate]
  omega

variable {after : ResumableTransfer}

theorem manifest_feedChunk [PayloadDigest] {t : ResumableTransfer} {offset : Int}
    (hfeed : t.feedChunk index offset data = .ok after) : after.manifest = t.manifest := by
  unfold feedChunk at hfeed
  split at hfeed
  · cases hfeed
  · cases hfeed
    rfl

theorem Declared.feedChunk [PayloadDigest] {t : ResumableTransfer} {maxBytes : Nat}
    {offset : Int} (h : t.Declared maxBytes)
    (hdata : t.manifest.verifyChunk index data = true ->
      (data.length : Int) = t.manifest.declaredLength index.toNat)
    (hfeed : t.feedChunk index offset data = .ok after) : after.Declared maxBytes := by
  unfold ResumableTransfer.feedChunk at hfeed
  split at hfeed
  · cases hfeed
  · next hverify =>
      rw [Bool.not_eq_false] at hverify
      cases hfeed
      have hindex : 0 ≤ index ∧ index < t.manifest.perChunkSha256.length := by
        unfold ChunkManifest.verifyChunk at hverify
        split at hverify
        · assumption
        · cases hverify
      refine { manifest := h.manifest, within := ?_, lengths := ?_ }
      · have hwithin := h.within
        show (placeChunk t.receivedChunks index.toNat data).length ≤
          t.manifest.perChunkSha256.length
        rw [length_placeChunk]
        omega
      · intro place chunk hget hchunk
        rcases getElem?_placeChunk hget with ⟨hplace, heq⟩ | hold | hgap
        · rw [hplace, heq]
          exact hdata hverify
        · exact h.lengths place chunk hold hchunk
        · exact absurd hgap hchunk

end ResumableTransfer

/-!
# The registry
-/

namespace UploadRegistry

def heldBytes (r : UploadRegistry) : Int :=
  (r.uploads.values.map Upload.heldBytes).sum

structure Within (r : UploadRegistry) : Prop where
  count : r.uploads.size ≤ r.maxUploads
  staged : r.stagedBytes ≤ r.maxStaged
  declared : forall ref u, r.uploads.get? ref = some u -> u.transfer.Declared r.maxBytes

theorem create_within (maxBytes maxUploads maxStaged : Nat) :
    (create maxBytes maxUploads maxStaged).Within :=
  { count := Nat.zero_le _
    staged := Int.natCast_nonneg _
    declared := by
      intro ref u hget
      cases hget }

variable {ref : String}

namespace Within

variable {r : UploadRegistry}

theorem heldBytes_le_stagedBytes (h : r.Within) : r.heldBytes ≤ r.stagedBytes := by
  apply List.sum_le_sum
  intro u hu
  rcases (r.uploads.mem_values_iff u).mp hu with ⟨ref, hget⟩
  exact (h.declared ref u hget).heldBytes_le

theorem keep (h : r.Within) (kept : String -> Upload -> Bool) :
    Within { r with uploads := r.uploads.filter kept } := by
  refine { count := ?_, staged := ?_, declared := ?_ }
  · exact le_trans (r.uploads.size_filter_le kept) h.count
  · refine le_trans ?_ h.staged
    apply List.Sublist.sum_le_sum
    · exact (List.filter_sublist.map Prod.snd).map _
    · intro total htotal
      rcases List.mem_map.mp htotal with ⟨u, hu, heq⟩
      rcases (r.uploads.mem_values_iff u).mp hu with ⟨ref, hget⟩
      rw [← heq]
      exact (h.declared ref u hget).manifest.nonneg
  · intro ref u hget
    exact h.declared ref u ((r.uploads.get?_filter_eq_some_iff kept ref u).mp hget).left

theorem erase (h : r.Within) (ref : String) :
    Within { r with uploads := r.uploads.erase ref } := by
  rw [r.uploads.erase_eq_filter]
  exact h.keep _

theorem set_declared (h : r.Within) (ref : String) {u : Upload}
    (hu : u.transfer.Declared r.maxBytes) (other : String) (v : Upload)
    (hget : (r.uploads.set ref u).get? other = some v) : v.transfer.Declared r.maxBytes := by
  rw [Dict.get?_set] at hget
  split at hget
  · cases hget
    exact hu
  · exact h.declared other v hget

theorem stagedBytes_set (r : UploadRegistry) (ref : String) (u : Upload) :
    stagedBytes { r with uploads := r.uploads.set ref u } =
      u.transfer.manifest.totalBytes +
        stagedBytes { r with uploads := r.uploads.erase ref } := by
  unfold stagedBytes
  rw [((r.uploads.values_set_perm ref u).map _).sum_eq, List.map_cons, List.sum_cons]

theorem replace (h : r.Within) {old u : Upload} (hold : r.uploads.get? ref = some old)
    (hu : u.transfer.Declared r.maxBytes)
    (hsize : u.transfer.manifest.totalBytes = old.transfer.manifest.totalBytes) :
    Within { r with uploads := r.uploads.set ref u } := by
  refine { count := ?_, staged := ?_, declared := h.set_declared ref hu }
  · have hcount := h.count
    rw [Dict.size_set, ← Dict.size_of_get? hold]
    exact hcount
  · have hstaged := h.staged
    unfold stagedBytes at hstaged
    rw [((Dict.values_perm_of_get? hold).map _).sum_eq, List.map_cons] at hstaged
    rw [stagedBytes_set, hsize]
    exact hstaged

theorem add (h : r.Within) (ref : String) {u : Upload}
    (hu : u.transfer.Declared r.maxBytes) (hcount : r.uploads.size < r.maxUploads)
    (hstaged : r.stagedBytes + u.transfer.manifest.totalBytes ≤ r.maxStaged) :
    Within { r with uploads := r.uploads.set ref u } := by
  refine { count := ?_, staged := ?_, declared := h.set_declared ref hu }
  · have hsize := r.uploads.size_filter_le (fun key _ => decide (key ≠ ref))
    show (r.uploads.set ref u).size ≤ r.maxUploads
    rw [Dict.size_set, Dict.erase_eq_filter]
    omega
  · have herase : stagedBytes { r with uploads := r.uploads.erase ref } ≤ r.stagedBytes := by
      cases hget : r.uploads.get? ref with
      | none =>
        rw [r.uploads.erase_of_not_mem ((r.uploads.get?_eq_none_iff ref).mp hget)]
      | some old =>
        have hnonneg := (h.declared ref old hget).manifest.nonneg
        unfold stagedBytes
        rw [((Dict.values_perm_of_get? hget).map _).sum_eq, List.map_cons]
        exact le_add_of_nonneg_left hnonneg
    rw [stagedBytes_set]
    show _ ≤ (r.maxStaged : Int)
    omega

end Within

def Bounded (r : UploadRegistry) : Prop :=
  r.heldBytes ≤ r.maxStaged ∧ r.uploads.size ≤ r.maxUploads

theorem Within.isBounded {r : UploadRegistry} (h : r.Within) : r.Bounded :=
  ⟨le_trans h.heldBytes_le_stagedBytes h.staged, h.count⟩

/-!
# Runs of calls
-/

theorem Within.stage {r : UploadRegistry} (h : r.Within) (ref : String)
    {chunkSize totalBytes : Int} {chunks : List String} (sha256 : String) (now : ℚ)
    (haccepted : forall contentHash, ChunkManifest.Accepted
      { contentHash := contentHash, chunkSize := chunkSize, totalBytes := totalBytes,
        perChunkSha256 := chunks } r.maxBytes) :
    (r.stage ref chunkSize totalBytes chunks sha256 now).2.Within := by
  unfold UploadRegistry.stage
  split
  · exact h
  · next hroom =>
      rw [not_or, Nat.not_le, Int.not_lt] at hroom
      apply h.add ref _ hroom.left hroom.right
      exact ResumableTransfer.new_declared (haccepted ref)

theorem Within.beginUpload {r : UploadRegistry} (h : r.Within) (ref : String)
    {chunkSize totalBytes : Int} (chunks : List String) (sha256 : String)
    (expiredAt now : ℚ) (hnonneg : 0 ≤ totalBytes) :
    (r.beginUpload ref chunkSize totalBytes chunks sha256 expiredAt now).2.Within := by
  unfold UploadRegistry.beginUpload
  split
  · exact h
  · next hgood =>
      unfold badManifest at hgood
      rw [not_or, not_or, not_not, Int.not_lt, not_not] at hgood
      rcases hgood with ⟨hsize, hbounded, hcount⟩
      have hexpired : (r.expire expiredAt).Within := h.keep _
      have hstage := hexpired.stage ref sha256 now (fun contentHash =>
        { size := hsize.left, nonneg := hnonneg, bounded := hbounded, count := hcount })
      split
      · exact hstage
      · next current hget =>
          split
          · exact hexpired.replace hget (hexpired.declared ref current hget) rfl
          · exact hstage

end UploadRegistry

inductive UploadCall where
  | beginUpload (payloadRef : String) (chunkSize totalBytes : Int) (chunks : List String)
      (sha256 : String) (expiredAt now : ℚ)
  | addChunk (payloadRef : String) (index : Int) (data : Bytes) (now : ℚ)

namespace UploadRegistry

variable [PayloadDigest]

def handle (r : UploadRegistry) : UploadCall -> UploadRegistry
  | .beginUpload ref chunkSize totalBytes chunks sha256 expiredAt now =>
    (r.beginUpload ref chunkSize totalBytes chunks sha256 expiredAt now).2
  | .addChunk ref index data now => (r.addChunk ref index data now).2

/-- A payload that is answered has the size declared for it, which is an accepted one. -/
def ReturnsDeclared (r : UploadRegistry) : UploadCall -> Prop
  | .beginUpload _ _ _ _ _ _ _ => True
  | .addChunk ref index data now =>
    forall payload, (r.addChunk ref index data now).1 = .ok (some payload) ->
      exists upload, r.uploads.get? ref = some upload ∧
        (payload.length : Int) = upload.transfer.manifest.totalBytes ∧
        0 ≤ upload.transfer.manifest.totalBytes ∧
        upload.transfer.manifest.totalBytes ≤ r.maxBytes

/-- No negative size is declared, and a chunk with the right digest has its length. -/
def MeetsManifest (r : UploadRegistry) : UploadCall -> Prop
  | .beginUpload _ _ totalBytes _ _ _ _ => 0 ≤ totalBytes
  | .addChunk ref index data _ =>
    forall upload, r.uploads.get? ref = some upload ->
      upload.transfer.manifest.verifyChunk index data = true ->
        (data.length : Int) = upload.transfer.manifest.declaredLength index.toNat

theorem Within.addChunk {r : UploadRegistry} (h : r.Within)
    (hmeets : r.MeetsManifest (.addChunk ref index data now)) :
    (r.addChunk ref index data now).2.Within ∧
      r.ReturnsDeclared (.addChunk ref index data now) := by
  rw [ReturnsDeclared, UploadRegistry.addChunk]
  split
  · exact ⟨h, fun payload hreturned => by cases hreturned⟩
  · next upload hget =>
    have hupload := h.declared ref upload hget
    split
    · exact ⟨h, fun payload hreturned => by cases hreturned⟩
    · next transfer hfeed =>
      have hdeclared := hupload.feedChunk (hmeets upload hget) hfeed
      have hmanifest := ResumableTransfer.manifest_feedChunk hfeed
      split
      · exact ⟨h.replace hget hdeclared (by rw [hmanifest]),
          fun payload hreturned => by cases hreturned⟩
      · next hall =>
        -- Only a complete transfer answers with a payload, and it is no longer staged.
        refine ⟨h.erase ref, fun payload hreturned => ⟨upload, hget, ?_,
          hupload.manifest.nonneg, hupload.manifest.bounded⟩⟩
        rw [Bool.not_eq_false] at hall
        split at hreturned
        · cases hreturned
        · cases hreturned
          rw [hdeclared.length_assemble hall, hmanifest]

theorem Within.handle {r : UploadRegistry} (h : r.Within) (call : UploadCall)
    (hmeets : r.MeetsManifest call) : (r.handle call).Within := by
  cases call with
  | beginUpload ref chunkSize totalBytes chunks sha256 expiredAt now =>
    exact h.beginUpload ref chunks sha256 expiredAt now hmeets
  | addChunk ref index data now => exact (h.addChunk hmeets).left

theorem Within.returnsDeclared {r : UploadRegistry} (h : r.Within) (call : UploadCall)
    (hmeets : r.MeetsManifest call) : r.ReturnsDeclared call := by
  cases call with
  | beginUpload ref chunkSize totalBytes chunks sha256 expiredAt now => trivial
  | addChunk ref index data now => exact (h.addChunk hmeets).right

theorem bounded_of_meetsManifest (maxBytes maxUploads maxStaged : Nat) (calls : List UploadCall)
    (hmeets : Along handle MeetsManifest (create maxBytes maxUploads maxStaged) calls) :
    Throughout handle Bounded (create maxBytes maxUploads maxStaged) calls ∧
      Along handle ReturnsDeclared (create maxBytes maxUploads maxStaged) calls := by
  have hstep : forall r call, Within r -> MeetsManifest r call -> Within (handle r call) :=
    fun r call hwithin hcall => hwithin.handle call hcall
  have hstart := create_within maxBytes maxUploads maxStaged
  constructor
  · intro completed hleading
    exact (throughout_of_along Within hstep hstart hmeets completed hleading).isBounded
  · exact along_of_along Within hstep
      (fun r call hwithin hcall => hwithin.returnsDeclared call hcall) hstart hmeets

end UploadRegistry

/-!
# A chunk that is longer than declared
-/

section Samples

attribute [local instance] PayloadDigest.checksum

def evenUpload : List UploadCall :=
  [.beginUpload "r" 2 3
      [PayloadDigest.sha256Hex [1, 2], PayloadDigest.sha256Hex [3]]
      (PayloadDigest.sha256Hex [1, 2, 3]) 0 0,
    .addChunk "r" 1 [3] 1, .addChunk "r" 0 [1, 2] 2]

def longUpload : List UploadCall :=
  [.beginUpload "r" 2 3
      [PayloadDigest.sha256Hex [1, 1, 1, 1, 1, 1], PayloadDigest.sha256Hex [3]]
      (PayloadDigest.sha256Hex [1, 1, 1, 1, 1, 1, 3]) 0 0,
    .addChunk "r" 0 [1, 1, 1, 1, 1, 1] 1]

def negativeUpload : List UploadCall :=
  [.beginUpload "n" 5 (-4) [] (PayloadDigest.sha256Hex []) 0 0,
    .beginUpload "r" 6 7
      [PayloadDigest.sha256Hex [1, 2, 3, 4, 5, 6], PayloadDigest.sha256Hex [7]]
      (PayloadDigest.sha256Hex [1, 2, 3, 4, 5, 6, 7]) 0 0,
    .addChunk "r" 0 [1, 2, 3, 4, 5, 6] 1]

theorem evenUpload_bounded :
    Throughout UploadRegistry.handle UploadRegistry.Bounded (UploadRegistry.create 8 4 3)
        evenUpload ∧
      Along UploadRegistry.handle UploadRegistry.ReturnsDeclared
        (UploadRegistry.create 8 4 3) evenUpload := by
  apply UploadRegistry.bounded_of_meetsManifest
  refine ⟨?_, ?_, ?_, trivial⟩
  · show (0 : Int) ≤ 3
    decide
  · intro upload hget _hverify
    cases hget
    decide
  · intro upload hget _hverify
    cases hget
    decide

theorem longUpload_not_bounded :
    ¬ (run UploadRegistry.handle (UploadRegistry.create 8 4 3) longUpload).Bounded ∧
      ¬ (run UploadRegistry.handle (UploadRegistry.create 8 4 3) longUpload).ReturnsDeclared
        (.addChunk "r" 1 [3] 2) ∧
      ¬ (run UploadRegistry.handle (UploadRegistry.create 8 4 3) negativeUpload).Bounded := by
  refine ⟨?_, ?_, ?_⟩
  · unfold UploadRegistry.Bounded
    decide
  · intro h
    rcases h [1, 1, 1, 1, 1, 1, 3] (by decide) with ⟨upload, hget, hlength, _hbounds⟩
    cases hget
    exact absurd hlength (by decide)
  · unfold UploadRegistry.Bounded
    decide +kernel

end Samples

end Transport
end Membrane
