import Membrane.Transport.UploadResume

/-!
# The cursor of a transfer

An accepted chunk moves the cursor of a transfer behind itself, whichever chunks were received
before.  Everything before the cursor has been received as long as the chunks come in order;
the payload is put together from its chunks in any order.
-/

namespace Membrane
namespace Transport

open Foundation Store

namespace ResumableTransfer

section Cursor

variable [PayloadDigest]

def assembleOrRaise (t : ResumableTransfer) : Except String Bytes :=
  if t.allChunksReceived then .ok t.assemble
  else .error ("missing " ++ toString ((t.manifest.perChunkSha256.length : Int) -
    t.receivedChunks.length) ++ " chunks")

def genuineChunks (t : ResumableTransfer) (payload : Bytes) : List Bytes :=
  chunksOf t.manifest.chunkSize.toNat payload

/-- A call with the chunk of the payload at an index.  A call that raises leaves the transfer
as it was. -/
def feedGenuine (payload : Bytes) (t : ResumableTransfer) (call : Nat × Int) :
    ResumableTransfer :=
  match t.feedChunk call.1 call.2 ((t.genuineChunks payload).getD call.1 []) with
  | .ok fed => fed
  | .error _ => t

def Received (payload : Bytes) (t : ResumableTransfer) (index : Nat) : Prop :=
  index < (t.genuineChunks payload).length ∧
    t.receivedChunks.getD index [] = (t.genuineChunks payload).getD index []

def Trustworthy (payload : Bytes) (t : ResumableTransfer) : Prop :=
  forall index : Nat, (index : Int) < t.cursor.nextIndex -> Received payload t index

def InOrder (payload : Bytes) (t : ResumableTransfer) (call : Nat × Int) : Prop :=
  call.1 < (t.genuineChunks payload).length ->
    forall index, index < call.1 -> Received payload t index

structure Transferring (payload : Bytes) (t : ResumableTransfer) : Prop where
  size_pos : 0 < t.manifest.chunkSize.toNat
  digests : t.manifest.perChunkSha256 =
    (t.genuineChunks payload).map PayloadDigest.sha256Hex
  length_le : t.receivedChunks.length ≤ (t.genuineChunks payload).length

/-!
# One call
-/

variable {payload : Bytes} {t : ResumableTransfer} {call : Nat × Int}

section

variable (h : Transferring payload t)

include h

theorem verifyChunk_genuine (index : Nat) :
    t.manifest.verifyChunk index ((t.genuineChunks payload).getD index []) = true <->
      index < (t.genuineChunks payload).length := by
  unfold ChunkManifest.verifyChunk
  rw [h.digests, List.length_map]
  constructor
  · intro hverified
    split at hverified
    next hrange => exact Int.ofNat_lt.mp hrange.right
    · cases hverified
  · intro hlt
    rw [if_pos ⟨Int.natCast_nonneg index, Int.ofNat_lt.mpr hlt⟩, Int.toNat_natCast,
      List.getElem?_map, List.getD_eq_getElem?_getD, List.getElem?_eq_getElem hlt]
    exact decide_eq_true rfl

theorem feedGenuine_of_lt (hlt : call.1 < (t.genuineChunks payload).length) :
    feedGenuine payload t call =
      { t with
        receivedChunks :=
          placeChunk t.receivedChunks call.1 ((t.genuineChunks payload).getD call.1 [])
        cursor :=
          { contentHash := t.cursor.contentHash, nextIndex := call.1 + 1,
            offset := call.2 } } := by
  have hverified := (verifyChunk_genuine h call.1).mpr hlt
  unfold feedGenuine feedChunk
  rw [hverified]
  rfl

theorem feedGenuine_of_ge
    (hge : ¬ call.1 < (t.genuineChunks payload).length) : feedGenuine payload t call = t := by
  have hrefused := Bool.eq_false_iff.mpr ((verifyChunk_genuine h call.1).not.mpr hge)
  unfold feedGenuine feedChunk
  rw [if_pos hrefused]

theorem manifest_feedGenuine (call : Nat × Int) :
    (feedGenuine payload t call).manifest = t.manifest := by
  by_cases hlt : call.1 < (t.genuineChunks payload).length
  · rw [feedGenuine_of_lt h hlt]
  · rw [feedGenuine_of_ge h hlt]

theorem transferring_feedGenuine (call : Nat × Int) :
    Transferring payload (feedGenuine payload t call) := by
  by_cases hlt : call.1 < (t.genuineChunks payload).length
  · rw [feedGenuine_of_lt h hlt]
    refine ⟨h.size_pos, h.digests, ?_⟩
    have hle := h.length_le
    show (placeChunk _ _ _).length ≤ (t.genuineChunks payload).length
    rw [length_placeChunk]
    omega
  · rw [feedGenuine_of_ge h hlt]
    exact h

theorem received_feedGenuine_iff
    (hlt : call.1 < (t.genuineChunks payload).length) (index : Nat) :
    Received payload (feedGenuine payload t call) index <->
      index = call.1 ∨ Received payload t index := by
  rw [feedGenuine_of_lt h hlt]
  show index < (t.genuineChunks payload).length ∧
    (placeChunk _ _ _).getD index [] = (t.genuineChunks payload).getD index [] <-> _
  rw [getD_placeChunk]
  by_cases heq : index = call.1
  · subst heq
    rw [if_pos rfl]
    exact ⟨fun _ => Or.inl rfl, fun _ => ⟨hlt, rfl⟩⟩
  · rw [if_neg heq]
    exact ⟨Or.inr, fun hor => hor.resolve_left heq⟩

theorem received_feedGenuine {index : Nat}
    (hreceived : Received payload t index) (call : Nat × Int) :
    Received payload (feedGenuine payload t call) index := by
  by_cases hlt : call.1 < (t.genuineChunks payload).length
  · exact (received_feedGenuine_iff h hlt index).mpr (Or.inr hreceived)
  · rw [feedGenuine_of_ge h hlt]
    exact hreceived

theorem trustworthy_feedGenuine_iff (htrust : Trustworthy payload t) (call : Nat × Int) :
    Trustworthy payload (feedGenuine payload t call) <-> InOrder payload t call := by
  by_cases hlt : call.1 < (t.genuineChunks payload).length
  · have hcursor : (feedGenuine payload t call).cursor.nextIndex = call.1 + 1 := by
      rw [feedGenuine_of_lt h hlt]
    unfold Trustworthy
    rw [hcursor]
    simp only [received_feedGenuine_iff h hlt]
    constructor
    · intro hall _ index hindex
      exact (hall index (by omega)).resolve_left (Nat.ne_of_lt hindex)
    · intro hbefore index hindex
      by_cases heq : index = call.1
      · exact Or.inl heq
      · exact Or.inr (hbefore hlt index (by omega))
  · rw [feedGenuine_of_ge h hlt]
    exact ⟨fun _ hinside => absurd hinside hlt, fun _ => htrust⟩

/-!
# Whole transfers
-/

theorem received_run {calls : List (Nat × Int)}
    (hcall : call ∈ calls) (hlt : call.1 < (t.genuineChunks payload).length) :
    Received payload (run (feedGenuine payload) t calls) call.1 := by
  induction calls generalizing t with
  | nil => cases hcall
  | cons first rest ih =>
    have hnext := transferring_feedGenuine h first
    rcases List.mem_cons.mp hcall with rfl | hrest
    · have hkept := throughout_of_step
        (fun s => Transferring payload s ∧ Received payload s call.1)
        (fun s other hs => ⟨transferring_feedGenuine hs.left other,
          received_feedGenuine hs.left hs.right other⟩)
        ⟨hnext, (received_feedGenuine_iff h hlt call.1).mpr (Or.inl rfl)⟩ rest
      exact (hkept rest (List.prefix_refl rest)).right
    · refine ih hnext hrest ?_
      unfold genuineChunks
      rw [manifest_feedGenuine h]
      exact hlt

theorem assemble_of_received
    (hall : forall index, index < (t.genuineChunks payload).length ->
      Received payload t index) : t.assembleOrRaise = .ok payload := by
  have hchunk : forall chunk, chunk ∈ t.genuineChunks payload -> chunk ≠ [] := by
    intro chunk hmem
    obtain ⟨index, hindex, rfl⟩ := List.mem_map.mp hmem
    refine chunkAt_ne_nil h.size_pos ?_
    rw [length_chunksOf]
    exact List.mem_range.mp hindex
  have hlength : t.receivedChunks.length = (t.genuineChunks payload).length := by
    refine Nat.le_antisymm h.length_le (Nat.le_of_not_lt ?_)
    intro hshort
    have hmissing := (hall _ hshort).right
    rw [List.getD_eq_default _ _ le_rfl, List.getD_eq_getElem _ _ hshort] at hmissing
    exact hchunk _ (List.getElem_mem hshort) hmissing.symm
  have hchunks : t.receivedChunks = t.genuineChunks payload := by
    refine List.ext_getElem hlength ?_
    intro index hleft hright
    have hkept := (hall index hright).right
    rw [List.getD_eq_getElem _ _ hleft, List.getD_eq_getElem _ _ hright] at hkept
    exact hkept
  have hcomplete : t.allChunksReceived = true := by
    unfold allChunksReceived
    rw [h.digests, List.length_map, hchunks, Bool.and_eq_true, List.all_eq_true]
    exact ⟨decide_eq_true le_rfl, fun chunk hmem => decide_eq_true (hchunk chunk hmem)⟩
  unfold assembleOrRaise assemble
  rw [if_pos hcomplete, hchunks]
  exact congrArg Except.ok (flatten_chunksOf h.size_pos payload)

end

/-- The cursor can be trusted throughout exactly when every chunk came in order, and a transfer
that was fed every chunk gives the payload. -/
theorem cursor_trustworthy_iff {size : Int} (hsize : 0 < size) (payload : Bytes)
    (contentHash : String) (calls : List (Nat × Int)) :
    exists m, ChunkManifest.fromPayload payload contentHash size = .ok m ∧
      (Throughout (feedGenuine payload) (Trustworthy payload) (new m) calls <->
        Along (feedGenuine payload) (InOrder payload) (new m) calls) ∧
      ((forall index, index < ((new m).genuineChunks payload).length ->
          exists offset, (index, offset) ∈ calls) ->
        (run (feedGenuine payload) (new m) calls).assembleOrRaise = .ok payload) := by
  refine ⟨_, if_neg (Int.not_le.mpr hsize), ?_⟩
  generalize hstart : new _ = start
  have hbegun : Transferring payload start := by
    subst hstart
    refine ⟨?_, rfl, Nat.zero_le _⟩
    show 0 < size.toNat
    omega
  have hempty : Trustworthy payload start := by
    subst hstart
    intro index hindex
    exact absurd hindex (Int.not_lt.mpr (Int.natCast_nonneg index))
  constructor
  · exact throughout_iff_along (Transferring payload) (Trustworthy payload) (fun _ _ => True)
      (InOrder payload) (fun t call ht _ => transferring_feedGenuine ht call)
      (fun t call ht htrust _ => trustworthy_feedGenuine_iff ht htrust call) hbegun hempty
      (along_of_forall (fun _ _ => trivial) _ _)
  · intro hfed
    have hkept := throughout_of_step
      (fun t => Transferring payload t ∧ t.manifest = start.manifest)
      (fun t call ht => ⟨transferring_feedGenuine ht.left call,
        (manifest_feedGenuine ht.left call).trans ht.right⟩) ⟨hbegun, rfl⟩ calls
    obtain ⟨hdone, hmanifest⟩ := hkept calls (List.prefix_refl calls)
    refine assemble_of_received hdone ?_
    intro index hlt
    unfold genuineChunks at hlt
    rw [hmanifest] at hlt
    obtain ⟨offset, hcall⟩ := hfed index hlt
    exact received_run hbegun hcall hlt

end Cursor

section Sample

attribute [local instance] PayloadDigest.constant

/-- After the third chunk alone the cursor stands behind chunks that were never received. -/
theorem cursor_skips :
    (ChunkManifest.fromPayload [7, 8, 9] "h" 1).map
        (fun m => (feedGenuine [7, 8, 9] (new m) (2, 0)).cursor.nextIndex) = .ok 3 ∧
      (ChunkManifest.fromPayload [7, 8, 9] "h" 1).map
        (fun m => (feedGenuine [7, 8, 9] (new m) (2, 0)).receivedChunks) =
          .ok [[], [], [9]] := by
  exact ⟨rfl, rfl⟩

theorem cursor_trustworthy_iff_three :
    exists m, ChunkManifest.fromPayload [7, 8, 9] "h" 1 = .ok m ∧
      (Throughout (feedGenuine [7, 8, 9]) (Trustworthy [7, 8, 9]) (new m)
          [(0, 0), (1, 0), (0, 0), (2, 0)] <->
        Along (feedGenuine [7, 8, 9]) (InOrder [7, 8, 9]) (new m)
          [(0, 0), (1, 0), (0, 0), (2, 0)]) ∧
      ((forall index, index < ((new m).genuineChunks [7, 8, 9]).length ->
          exists offset : Int, (index, offset) ∈ [(0, 0), (1, 0), (0, 0), (2, 0)]) ->
        (run (feedGenuine [7, 8, 9]) (new m)
          [(0, 0), (1, 0), (0, 0), (2, 0)]).assembleOrRaise = .ok [7, 8, 9]) :=
  cursor_trustworthy_iff Int.one_pos [7, 8, 9] "h" [(0, 0), (1, 0), (0, 0), (2, 0)]

end Sample

end ResumableTransfer

end Transport
end Membrane
