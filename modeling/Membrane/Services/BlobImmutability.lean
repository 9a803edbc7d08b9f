import Mathlib.Data.List.Chain
import Membrane.Transport.Uploads
import Membrane.Transport.Availability

/-!
# Bytes under a reference that is in use

Payload bytes reach a node by a plain put, by a chunked upload and with a copy from a peer.
The plain put leaves bytes that are already there as they are.  An upload that completes and
a copy put their bytes without looking, so that a reference in use keeps its bytes as long as
what they put is what is there.
-/

namespace Membrane
namespace Services

open Foundation Data Store Serving Transport

/-!
# Copying from a peer
-/

section Copying

variable {sigma tau pi : Type} [ContentStore sigma]

variable [InventoryHash] [LowerTier tau] [EvictionPolicy pi]

/-- A copy is stored on the node's own behalf and is never primary. -/
def storeCopy (n : Node sigma tau pi) (f : Fragment) (now : ℚ) :
    Except NodeError (Option Fragment) × Node sigma tau pi :=
  match n.store f false Caller.internal now now with
  | (.error e, stored) => (.error e, stored)
  | (.ok true, stored) => (.ok (some f), stored)
  | (.ok false, stored) => (.ok none, stored)

def takeCopy (n : Node sigma tau pi) (f : Fragment) (payload : String -> Option Bytes)
    (now : ℚ) : Except NodeError (Option Fragment) × Node sigma tau pi :=
  match f.payloadRef with
  | none => storeCopy n f now
  | some ref =>
    match payload ref with
    | none => (.ok none, n)
    | some data =>
      match ContentStore.put n.contentStore ref data with
      | .error message => (.error (.contentStore message), n)
      | .ok contentStore => storeCopy { n with contentStore := contentStore } f now

end Copying

/-!
# Handlers of chunked uploads
-/

structure BlobHost (sigma tau pi : Type) where
  node : Node sigma tau pi
  uploads : UploadRegistry

inductive UploadAnswer where
  | error (status : Nat) (message : String)
  | progress (stored : Bool) (received : List Nat)
  deriving DecidableEq

/-- Only an error that asks to retry later is not the sender's. -/
def UploadAnswer.ofError : UploadError -> UploadAnswer
  | .tooManyUploads => .error 429 UploadError.tooManyUploads.message
  | e => .error 400 e.message

namespace BlobHost

variable {sigma tau pi : Type} [ContentStore sigma]

/-- An upload is not begun when there are bytes under its reference. -/
def handleBeginUpload (h : BlobHost sigma tau pi) (payloadRef : String)
    (chunkSize totalBytes : Int) (chunks : List String) (sha256 : String)
    (expiredAt now : ℚ) : UploadAnswer × BlobHost sigma tau pi :=
  if validPayloadRef payloadRef = false then (.error 400 "invalid payload_ref", h)
  else if ContentStore.has h.node.contentStore payloadRef then (.progress true [], h)
  else
    match h.uploads.beginUpload payloadRef chunkSize totalBytes chunks sha256 expiredAt
        now with
    | (.error e, uploads) => (.ofError e, { h with uploads := uploads })
    | (.ok received, uploads) => (.progress false received, { h with uploads := uploads })

theorem handleBeginUpload_node (h : BlobHost sigma tau pi) (ref : String)
    (chunkSize totalBytes : Int) (chunks : List String) (sha256 : String) (expiredAt now : ℚ) :
    (h.handleBeginUpload ref chunkSize totalBytes chunks sha256 expiredAt now).2.node =
      h.node := by
  unfold handleBeginUpload
  split_ifs
  · rfl
  · rfl
  · split
    · rfl
    · rfl

variable [PayloadDigest]

/-- A completed payload is put without asking whether there are bytes already. -/
def handleUploadChunk (h : BlobHost sigma tau pi) (payloadRef : String) (index : Int)
    (data : Bytes) (now : ℚ) : Except NodeError UploadAnswer × BlobHost sigma tau pi :=
  if maxChunkBytes + 64 < data.length then (.ok (.error 413 "chunk too large"), h)
  else
    match h.uploads.addChunk payloadRef index data now with
    | (.error e, uploads) =>
      (.ok (.error 400 e.message), { h with uploads := uploads })
    | (.ok none, uploads) =>
      (.ok (.progress false (uploads.received payloadRef)),
        { h with uploads := uploads })
    | (.ok (some payload), uploads) =>
      match ContentStore.put h.node.contentStore payloadRef payload with
      | .error message =>
        (.error (.contentStore message), { h with uploads := uploads })
      | .ok contentStore =>
        (.ok (.progress true []),
          { node := { h.node with contentStore := contentStore }, uploads := uploads })

theorem handleUploadChunk_node (h : BlobHost sigma tau pi) (ref : String) (index : Int)
    (data : Bytes) (now : ℚ) :
    ((h.handleUploadChunk ref index data now).2.node = h.node ∧
        forall payload, (data.length : Int) ≤ maxChunkBytes + 64 ->
          (h.uploads.addChunk ref index data now).1 = .ok (some payload) ->
            forall contentStore, ContentStore.put h.node.contentStore ref payload ≠
              .ok contentStore) ∨
      exists payload contentStore, (data.length : Int) ≤ maxChunkBytes + 64 ∧
        (h.uploads.addChunk ref index data now).1 = .ok (some payload) ∧
        ContentStore.put h.node.contentStore ref payload = .ok contentStore ∧
        (h.handleUploadChunk ref index data now).2.node =
          { h.node with contentStore := contentStore } := by
  unfold handleUploadChunk
  split_ifs with hlarge
  · exact Or.inl ⟨rfl, fun payload hsmall => absurd hlarge (not_lt.mpr hsmall)⟩
  · rcases hadd : h.uploads.addChunk ref index data now with ⟨_ | _ | whole, uploads⟩
    · exact Or.inl ⟨rfl, fun payload _ hpayload => by cases hpayload⟩
    · exact Or.inl ⟨rfl, fun payload _ hpayload => by cases hpayload⟩
    · simp only
      cases hput : ContentStore.put h.node.contentStore ref whole with
      | error message =>
        left
        refine ⟨rfl, ?_⟩
        intro payload _ hpayload contentStore hok
        cases hpayload
        rw [hput] at hok
        cases hok
      | ok contentStore =>
        exact Or.inr ⟨whole, contentStore, not_lt.mp hlarge, rfl, hput, rfl⟩

end BlobHost

/-!
# Bytes that are kept
-/

theorem put_invariant {sigma tau pi : Type} [InventoryHash] {n : Node sigma tau pi}
    (hn : n.Invariant) (contentStore : sigma) :
    Node.Invariant { n with contentStore := contentStore } :=
  ⟨⟨hn.bookkeeping, hn.tracked⟩, hn.capacity⟩

section Keeping

variable {sigma tau pi : Type} [ContentStore sigma]

/-- Bytes under a reference that a fragment has before and after are the same. -/
def KeepsReferenced (n n' : Node sigma tau pi) : Prop :=
  forall k f g ref data, n.fragments.get? k = some f -> n'.fragments.get? k = some g ->
    f.payloadRef = some ref -> g.payloadRef = some ref ->
    ContentStore.get n.contentStore ref = some data ->
      ContentStore.get n'.contentStore ref = some data

def Overwrites (n : Node sigma tau pi) (ref : String) (data : Bytes) : Prop :=
  exists contentStore stored, ContentStore.put n.contentStore ref data =
      .ok contentStore ∧
    Uses n.fragments ref ∧ ContentStore.get n.contentStore ref = some stored ∧
    stored ≠ data

theorem KeepsReferenced.refl (n : Node sigma tau pi) : KeepsReferenced n n :=
  fun _k _f _g _ref _data _hf _hg _hfref _hgref hget => hget

theorem keepsReferenced_of_contentStore {n n' : Node sigma tau pi}
    (h : n'.contentStore = n.contentStore) : KeepsReferenced n n' := by
  intro k f g ref data _hf _hg _hfref _hgref hget
  rw [h]
  exact hget

theorem keepsReferenced_put_iff {n : Node sigma tau pi} {ref : String} {data : Bytes}
    {contentStore : sigma}
    (hput : ContentStore.put n.contentStore ref data = .ok contentStore) :
    KeepsReferenced n { n with contentStore := contentStore } <->
      ¬ Overwrites n ref data := by
  have hget := ContentStore.get_put _ _ _ _ hput
  constructor
  · intro hkeeps hover
    rcases hover with ⟨_, stored, _hput, ⟨k, f, hf, hfref⟩, hstored, hne⟩
    have hafter : ContentStore.get contentStore ref = some stored :=
      hkeeps k f f ref stored hf hf hfref hfref hstored
    rw [hget, if_pos rfl] at hafter
    exact hne (Option.some.inj hafter).symm
  · intro hover k f g other stored hf _hg hfref _hgref hstored
    rw [hget]
    split_ifs with hother
    · rw [hother] at hfref hstored
      by_contra hne
      apply hover
      exact ⟨contentStore, stored, hput, ⟨k, f, hf, hfref⟩, hstored,
        fun heq => hne (by rw [heq])⟩
    · exact hstored

theorem opPutBlob_keepsReferenced [PayloadDigest] (n : Node sigma tau pi) (ref : String)
    (data : Bytes) (claimedSha256 : String) :
    KeepsReferenced n (opPutBlob n ref data claimedSha256).2 := by
  unfold opPutBlob
  split_ifs with hvalid hdigest hhas
  · exact KeepsReferenced.refl n
  · exact KeepsReferenced.refl n
  · exact KeepsReferenced.refl n
  · split
    · exact KeepsReferenced.refl n
    · next contentStore hput =>
        apply (keepsReferenced_put_iff hput).mpr
        intro hover
        rcases hover with ⟨_, stored, _hput, _huses, hstored, _hne⟩
        rw [ContentStore.has_eq, hstored] at hhas
        exact hhas rfl

variable [InventoryHash] {n m m' : Node sigma tau pi}

theorem KeepsReferenced.evicts (h : KeepsReferenced n m)
    {victims : List (String × Fragment)} (hevicts : Node.Evicts m victims m') :
    KeepsReferenced n m' := by
  intro k f g ref data hf hg hfref hgref hget
  have hbefore := hevicts.get?_of_remaining hg
  rw [hevicts.kept ref (fun _ => ⟨k, g, hg, hgref⟩)]
  exact h k f g ref data hf hbefore hfref hgref hget

theorem KeepsReferenced.remove (h : KeepsReferenced n m) (hm : m.Consistent)
    (k : String) : KeepsReferenced n (Node.after (m.removeFragment k)) := by
  rcases Node.after_removeFragment_evicts hm k with ⟨_, hevicts⟩
  exact h.evicts hevicts

variable [LowerTier tau] [EvictionPolicy pi]

section

variable (hn : n.Invariant) (f : Fragment)

include hn

theorem store_keepsReferenced (isPrimary : Bool) (caller : Caller) (now evictTime : ℚ) :
    KeepsReferenced n (n.store f isPrimary caller now evictTime).2 := by
  rcases Node.store_cases hn f isPrimary caller now evictTime with
    ⟨_, _, hsame⟩ | ⟨_, _, hstore⟩ | ⟨_, _, _, hstore⟩ |
      ⟨_, _, hnew, victims, room, _, hevicts, _, _, hstore⟩
  · rw [hsame]
    exact KeepsReferenced.refl n
  · rw [hstore]
    exact keepsReferenced_of_contentStore (n.charged_contentStore f)
  · rw [hstore]
    exact keepsReferenced_of_contentStore (n.charged_contentStore f)
  · rw [hstore]
    have hroom : KeepsReferenced n room :=
      (keepsReferenced_of_contentStore (n.charged_contentStore f)).evicts hevicts
    intro k first last ref data hfirst hlast hfirstref hlastref hget
    rw [Node.get?_inserted] at hlast
    split at hlast
    · next hk =>
        rw [hk] at hfirst
        exact absurd (Dict.mem_of_get? hfirst) hnew
    · exact hroom k first last ref data hfirst hlast hfirstref hlastref hget

theorem opStore_keepsReferenced (ctx : StoreContext)
    (now evictTime : ℚ) : KeepsReferenced n (opStore n f ctx now evictTime).2 := by
  classical
  cases hreject : rejection n (ctx.effective f) ctx with
  | some response =>
    rw [opStore_of_rejected n f ctx now evictTime hreject]
    exact KeepsReferenced.refl n
  | none =>
    have hstored := store_keepsReferenced hn (ctx.effective f) ctx.isPrimary ctx.caller
      now evictTime
    rw [opStore_of_not_rejected n f ctx now evictTime hreject, opStoreAccepted_node]
    split_ifs
    · exact hstored.remove (Node.store_invariant hn).toConsistent _
    · exact hstored

theorem opReplicate_keepsReferenced (isPrimary : Bool) (caller : Caller) (now evictTime : ℚ) :
    KeepsReferenced n (opReplicate n f isPrimary caller now evictTime).2 := by
  unfold opReplicate
  split
  · exact KeepsReferenced.refl n
  · exact store_keepsReferenced hn f isPrimary caller now evictTime

end

theorem storeCopy_snd (n : Node sigma tau pi) (f : Fragment) (now : ℚ) :
    (storeCopy n f now).2 = (n.store f false Caller.internal now now).2 := by
  unfold storeCopy
  split
  · next h => rw [h]
  · next h => rw [h]
  · next h => rw [h]

/-!
# Copies
-/

def copyTrail (n : Node sigma tau pi) (f : Fragment) (payload : String -> Option Bytes)
    (now : ℚ) : List (Node sigma tau pi) :=
  match f.payloadRef with
  | none => [(storeCopy n f now).2]
  | some ref =>
    match payload ref with
    | none => [n]
    | some data =>
      match ContentStore.put n.contentStore ref data with
      | .error _ => [n]
      | .ok contentStore =>
        [{ n with contentStore := contentStore },
          (storeCopy { n with contentStore := contentStore } f now).2]

section

variable (hn : n.Invariant) (f : Fragment) (payload : String -> Option Bytes) (now : ℚ)

include hn

theorem takeCopy_invariant :
    (takeCopy n f payload now).2.Invariant := by
  unfold takeCopy
  split
  · rw [storeCopy_snd]
    exact Node.store_invariant hn
  · split
    · exact hn
    · split
      · exact hn
      · rw [storeCopy_snd]
        exact Node.store_invariant (put_invariant hn _)

theorem copyTrail_isChain_iff :
    (n :: copyTrail n f payload now).IsChain KeepsReferenced <->
      forall ref data, f.payloadRef = some ref -> payload ref = some data ->
        ¬ Overwrites n ref data := by
  unfold copyTrail
  cases href : f.payloadRef with
  | none =>
    rw [List.isChain_pair]
    refine iff_of_true ?_ (fun ref data h => by cases h)
    rw [storeCopy_snd]
    exact store_keepsReferenced hn f false _ now now
  | some ref =>
    simp only
    cases hpayload : payload ref with
    | none =>
      rw [List.isChain_pair]
      refine iff_of_true (KeepsReferenced.refl n) ?_
      intro other data hother hdata
      cases hother
      rw [hpayload] at hdata
      cases hdata
    | some data =>
      simp only
      have hsame : (forall other bytes, some ref = some other ->
          payload other = some bytes -> ¬ Overwrites n other bytes) <->
            ¬ Overwrites n ref data := by
        constructor
        · intro h
          exact h ref data rfl hpayload
        · intro h other bytes hother hbytes
          cases hother
          rw [hpayload] at hbytes
          cases hbytes
          exact h
      rw [hsame]
      cases hput : ContentStore.put n.contentStore ref data with
      | error message =>
        rw [List.isChain_pair]
        refine iff_of_true (KeepsReferenced.refl n) ?_
        intro hover
        rcases hover with ⟨contentStore, stored, hok, _⟩
        rw [hput] at hok
        cases hok
      | ok contentStore =>
        rw [List.isChain_cons_cons, List.isChain_pair, keepsReferenced_put_iff hput]
        apply and_iff_left
        rw [storeCopy_snd]
        exact store_keepsReferenced (put_invariant hn contentStore) f false _ now now

end

end Keeping

/-!
# Runs of calls
-/

inductive BlobCall where
  | putBlob (payloadRef : String) (data : Bytes) (claimedSha256 : String)
  | beginUpload (payloadRef : String) (chunkSize totalBytes : Int) (chunks : List String)
      (sha256 : String) (expiredAt now : ℚ)
  | uploadChunk (payloadRef : String) (index : Int) (data : Bytes) (now : ℚ)
  | store (f : Fragment) (ctx : StoreContext) (now evictTime : ℚ)
  | replicate (f : Fragment) (isPrimary : Bool) (caller : Caller) (now evictTime : ℚ)
  | copyFragment (f : Fragment) (payload : String -> Option Bytes) (now : ℚ)

namespace BlobHost

def create {sigma tau pi : Type} (config : Config sigma tau pi)
    (maxBytes maxUploads maxStaged : Nat) : BlobHost sigma tau pi :=
  { node := Node.create config, uploads := UploadRegistry.create maxBytes maxUploads maxStaged }

variable {sigma tau pi : Type} [InventoryHash] [ContentStore sigma] [LowerTier tau]
variable [EvictionPolicy pi] [PayloadDigest]

def handle (h : BlobHost sigma tau pi) : BlobCall -> BlobHost sigma tau pi
  | .putBlob ref data claimedSha256 =>
    { h with node := (opPutBlob h.node ref data claimedSha256).2 }
  | .beginUpload ref chunkSize totalBytes chunks sha256 expiredAt now =>
    (h.handleBeginUpload ref chunkSize totalBytes chunks sha256 expiredAt now).2
  | .uploadChunk ref index data now => (h.handleUploadChunk ref index data now).2
  | .store f ctx now evictTime => { h with node := (opStore h.node f ctx now evictTime).2 }
  | .replicate f isPrimary caller now evictTime =>
    { h with node := (opReplicate h.node f isPrimary caller now evictTime).2 }
  | .copyFragment f payload now => { h with node := (takeCopy h.node f payload now).2 }

def trail (h : BlobHost sigma tau pi) : BlobCall -> List (Node sigma tau pi)
  | .copyFragment f payload now => copyTrail h.node f payload now
  | call => [(h.handle call).node]

def Immutable (h : BlobHost sigma tau pi) (call : BlobCall) : Prop :=
  (h.node :: h.trail call).IsChain KeepsReferenced

/-- What the call puts without looking does not replace other bytes in use. -/
def PutsSameBytes (h : BlobHost sigma tau pi) : BlobCall -> Prop
  | .uploadChunk ref index data now =>
    forall payload, (data.length : Int) ≤ maxChunkBytes + 64 ->
      (h.uploads.addChunk ref index data now).1 = .ok (some payload) ->
        ¬ Overwrites h.node ref payload
  | .copyFragment f payload _ =>
    forall ref data, f.payloadRef = some ref -> payload ref = some data ->
      ¬ Overwrites h.node ref data
  | _ => True

theorem handle_invariant {h : BlobHost sigma tau pi} (hn : h.node.Invariant)
    (call : BlobCall) : (h.handle call).node.Invariant := by
  cases call with
  | putBlob ref data claimedSha256 =>
    show (opPutBlob h.node ref data claimedSha256).2.Invariant
    rw [opPutBlob_eq]
    exact put_invariant hn _
  | beginUpload ref chunkSize totalBytes chunks sha256 expiredAt now =>
    show (h.handleBeginUpload ref chunkSize totalBytes chunks sha256 expiredAt
      now).2.node.Invariant
    rw [handleBeginUpload_node]
    exact hn
  | uploadChunk ref index data now =>
    show (h.handleUploadChunk ref index data now).2.node.Invariant
    rcases h.handleUploadChunk_node ref index data now with
      ⟨hsame, _⟩ | ⟨payload, contentStore, _, _, _, hnode⟩
    · rw [hsame]
      exact hn
    · rw [hnode]
      exact put_invariant hn contentStore
  | store f ctx now evictTime =>
    exact opStore_preserves Node.Invariant
      (fun m f isPrimary caller now evictTime hm => Node.store_invariant hm)
      (fun m k hm => Node.mutate_invariant hm (.removeFragment k)) hn f ctx now evictTime
  | replicate f isPrimary caller now evictTime =>
    exact opReplicate_preserves Node.Invariant
      (fun m f isPrimary caller now evictTime hm => Node.store_invariant hm)
      hn f isPrimary caller now evictTime
  | copyFragment f payload now => exact takeCopy_invariant hn f payload now

theorem immutable_iff {h : BlobHost sigma tau pi} (hn : h.node.Invariant)
    (call : BlobCall) : h.Immutable call <-> h.PutsSameBytes call := by
  cases call with
  | putBlob ref data claimedSha256 =>
    refine iff_of_true (List.isChain_pair.mpr ?_) trivial
    exact opPutBlob_keepsReferenced h.node ref data claimedSha256
  | beginUpload ref chunkSize totalBytes chunks sha256 expiredAt now =>
    refine iff_of_true (List.isChain_pair.mpr ?_) trivial
    show KeepsReferenced h.node (h.handleBeginUpload ref chunkSize totalBytes chunks sha256
      expiredAt now).2.node
    rw [handleBeginUpload_node]
    exact KeepsReferenced.refl h.node
  | uploadChunk ref index data now =>
    show (h.node :: [(h.handleUploadChunk ref index data now).2.node]).IsChain _ <-> _
    rw [List.isChain_pair]
    rcases h.handleUploadChunk_node ref index data now with
      ⟨hsame, hnone⟩ | ⟨payload, contentStore, hsmall, hadd, hput, hnode⟩
    · rw [hsame]
      refine iff_of_true (KeepsReferenced.refl h.node) ?_
      intro payload hsmall hadd hover
      rcases hover with ⟨contentStore, _, hput, _⟩
      exact hnone payload hsmall hadd contentStore hput
    · rw [hnode, keepsReferenced_put_iff hput]
      constructor
      · intro hover other _hsmall hother
        rw [hadd] at hother
        cases hother
        exact hover
      · intro hall
        exact hall payload hsmall hadd
  | store f ctx now evictTime =>
    refine iff_of_true (List.isChain_pair.mpr ?_) trivial
    exact opStore_keepsReferenced hn f ctx now evictTime
  | replicate f isPrimary caller now evictTime =>
    refine iff_of_true (List.isChain_pair.mpr ?_) trivial
    exact opReplicate_keepsReferenced hn f isPrimary caller now evictTime
  | copyFragment f payload now => exact copyTrail_isChain_iff hn f payload now

end BlobHost

/-!
# Two ways to replace bytes in use
-/

section Replaced

attribute [local instance] InventoryHash.constant PayloadDigest.checksum

def referencedNine : List BlobCall :=
  [.beginUpload "r" 1 1 [PayloadDigest.sha256Hex [7]] (PayloadDigest.sha256Hex [7]) 0 0,
    .putBlob "r" [9] (PayloadDigest.sha256Hex [9]),
    .replicate firstCopy true Caller.internal 1 1]

def emptyHost : BlobHost InProcessBytes Empty WeightedLRU :=
  BlobHost.create (Config.default "n0" 200) 8 4 8

end Replaced

end Services
end Membrane
