import Membrane.Serving.Node

/-!
# The warm tier

Fragments that are evicted for space move, bytes included, to a bounded store on
disk.  Eviction only queues them; a writer takes them from the queue one by one.
A fragment that is read again is taken out of the queue or off the disk.

The metadata of an entry is written to the store of the tier next to the payloads,
in a serialized form that is a parameter here.
-/

namespace Membrane
namespace Serving

open Foundation Data Store

/-- The serialized form of a fragment; reading one back can fail. -/
class FragmentCodec where
  dumps : Fragment -> Bytes
  loads : Bytes -> Option Fragment

@[reducible] def FragmentCodec.unreadable : FragmentCodec where
  dumps _ := []
  loads _ := none

def metaKey (contentHash : String) : String := "frag-" ++ contentHash

def demotedTiers : List Tier := [.hot, .warm, .cold]

structure WarmTier (sigma : Type) where
  store : sigma
  capacityBytes : Int
  policy : TierPolicy
  index : Dict String Int
  refs : Dict String Int
  bytes : Int
  pending : Dict String (Fragment × Option Bytes)
  queue : List String

namespace WarmTier

variable {sigma : Type}

def create (store : sigma) (capacityBytes : Int) (policy : TierPolicy) :
    WarmTier sigma :=
  { store := store
    capacityBytes := capacityBytes
    policy := policy
    index := Dict.empty
    refs := Dict.empty
    bytes := 0
    pending := Dict.empty
    queue := [] }

variable (w : WarmTier sigma)

def contains (contentHash : String) : Bool :=
  decide (contentHash ∈ w.index) || decide (contentHash ∈ w.pending)

def demoteLater (f : Fragment) (payload : Option Bytes) : WarmTier sigma :=
  { w with
    pending := w.pending.set f.key (f, payload)
    queue := w.queue ++ [f.key] }

def countAfter (payloadRef : Option String) (delta : Int) : Int :=
  match payloadRef with
  | none => 0
  | some ref => max (w.refs.getD ref 0 + delta) 0

def reference (payloadRef : Option String) (delta : Int) : WarmTier sigma :=
  { w with
    refs :=
      match payloadRef with
      | none => w.refs
      | some ref =>
        if 0 < w.refs.getD ref 0 + delta then
          w.refs.set ref (w.refs.getD ref 0 + delta)
        else w.refs.erase ref }

variable [ContentStore sigma]

def deleteKey (key : String) : WarmTier sigma :=
  { w with store := (ContentStore.delete w.store key).2 }

variable [FragmentCodec]

def load (contentHash : String) : Option Fragment :=
  (ContentStore.get w.store (metaKey contentHash)).bind FragmentCodec.loads

/-- Delete an entry.  Its payload stays as long as another entry uses it. -/
def drop (contentHash : String) : WarmTier sigma :=
  let ref := (w.load contentHash).bind (fun f => f.payloadRef)
  let unlisted : WarmTier sigma :=
    match w.index.get? contentHash with
    | none => w
    | some size =>
      ({ w with
        index := w.index.erase contentHash
        bytes := w.bytes - size } : WarmTier sigma).reference ref (-1)
  let isShared := decide (contentHash ∈ w.index) && decide (0 < w.countAfter ref (-1))
  let freed :=
    match ref with
    | none => unlisted
    | some ref => if isShared then unlisted else unlisted.deleteKey ref
  freed.deleteKey (metaKey contentHash)

/-!
# The writer
-/

def overflow (capacityBytes : Int) : List (String × Int) -> Int -> List String
  | [], _ => []
  | (contentHash, size) :: rest, total =>
    if total ≤ capacityBytes then []
    else contentHash :: overflow capacityBytes rest (total - size)

def list (f : Fragment) : WarmTier sigma :=
  let counted : WarmTier sigma :=
    if f.key ∈ w.index then w
    else ({ w with bytes := w.bytes + f.payloadSize } : WarmTier sigma).reference
      f.payloadRef 1
  { counted with index := (counted.index.erase f.key).set f.key f.payloadSize }

def dropAll : List String -> WarmTier sigma -> WarmTier sigma
  | [], w => w
  | contentHash :: rest, w => dropAll rest (w.drop contentHash)

/-- Keep an evicted fragment, unless it is archival, its bytes are missing or it
is larger than the tier. -/
def demote (f : Fragment) (payload : Option Bytes) :
    Except String Bool × WarmTier sigma :=
  if selectTier w.policy f ∉ demotedTiers then (.ok false, w)
  else if f.payloadRef.isSome ∧ payload.isNone then (.ok false, w)
  else if w.capacityBytes < f.payloadSize then (.ok false, w)
  else
    let written : Except String sigma :=
      match f.payloadRef, payload with
      | some ref, some data => ContentStore.put w.store ref data
      | _, _ => .ok w.store
    match written with
    | .error message => (.error message, w)
    | .ok store =>
      match ContentStore.put store (metaKey f.key) (FragmentCodec.dumps f) with
      | .error message => (.error message, { w with store := store })
      | .ok store =>
        let listed := ({ w with store := store } : WarmTier sigma).list f
        (.ok true,
          dropAll (overflow listed.capacityBytes listed.index.entries listed.bytes)
            listed)

/-!
# Promotion
-/

def promote (contentHash : String) :
    Option (Fragment × Option Bytes) × WarmTier sigma :=
  match w.pending.get? contentHash with
  | some item => (some item, { w with pending := w.pending.erase contentHash })
  | none =>
    if ¬ contentHash ∈ w.index then (none, w)
    else
      match w.load contentHash with
      | none => (none, w.drop contentHash)
      | some f =>
        let payload := f.payloadRef.bind (ContentStore.get w.store)
        if f.payloadRef.isSome ∧ payload.isNone then (none, w.drop contentHash)
        else (some (f, payload), w.drop contentHash)

theorem promote_of_not_contains {contentHash : String}
    (h : w.contains contentHash = false) : w.promote contentHash = (none, w) := by
  unfold contains at h
  rw [Bool.or_eq_false_iff, decide_eq_false_iff_not, decide_eq_false_iff_not] at h
  unfold promote
  rw [(w.pending.get?_eq_none_iff contentHash).mpr h.right]
  simp only [if_pos h.left]

structure Filed (w : WarmTier sigma) : Prop where
  pending : forall k item, w.pending.get? k = some item -> item.1.key = k
  stored : forall k f, w.load k = some f -> f.key = k

variable {w}

theorem Filed.key_of_promote (h : w.Filed) {k : String} {item : Fragment × Option Bytes}
    (hitem : (w.promote k).1 = some item) : item.1.key = k := by
  unfold promote at hitem
  split at hitem
  · rename_i hpending
    cases hitem
    exact h.pending k item hpending
  · split_ifs at hitem
    cases hload : w.load k with
    | none =>
      rw [hload] at hitem
      cases hitem
    | some f =>
      simp only [hload] at hitem
      split_ifs at hitem
      cases hitem
      exact h.stored k f hload

theorem load_of_deleteKey {key k : String} {f : Fragment}
    (h : (w.deleteKey key).load k = some f) : w.load k = some f := by
  unfold load deleteKey at h
  simp only [ContentStore.get_delete] at h
  split_ifs at h
  · cases h
  · exact h

theorem drop_cases (w : WarmTier sigma) (contentHash : String) :
    exists unlisted : WarmTier sigma, unlisted.store = w.store ∧
      unlisted.pending = w.pending ∧
      (w.drop contentHash = unlisted.deleteKey (metaKey contentHash) ∨
        exists ref, w.drop contentHash =
          (unlisted.deleteKey ref).deleteKey (metaKey contentHash)) := by
  unfold drop
  simp only
  cases w.index.get? contentHash with
  | none =>
    refine ⟨w, rfl, rfl, ?_⟩
    split
    · exact Or.inl rfl
    · split_ifs
      · exact Or.inl rfl
      · exact Or.inr ⟨_, rfl⟩
  | some size =>
    refine ⟨({ w with index := w.index.erase contentHash, bytes := w.bytes - size } :
      WarmTier sigma).reference ((w.load contentHash).bind (fun f => f.payloadRef)) (-1),
      rfl, rfl, ?_⟩
    split
    · exact Or.inl rfl
    · split_ifs
      · exact Or.inl rfl
      · exact Or.inr ⟨_, rfl⟩

theorem load_of_drop {contentHash k : String} {f : Fragment}
    (h : (w.drop contentHash).load k = some f) : w.load k = some f := by
  rcases w.drop_cases contentHash with ⟨unlisted, hstore, _, hdrop⟩
  have hload : unlisted.load k = some f := by
    rcases hdrop with hdrop | ⟨ref, hdrop⟩
    · rw [hdrop] at h
      exact load_of_deleteKey h
    · rw [hdrop] at h
      exact load_of_deleteKey (load_of_deleteKey h)
  unfold load at hload ⊢
  rw [hstore] at hload
  exact hload

theorem drop_pending (w : WarmTier sigma) (contentHash : String) :
    (w.drop contentHash).pending = w.pending := by
  rcases w.drop_cases contentHash with ⟨unlisted, _, hpending, hdrop⟩
  rcases hdrop with hdrop | ⟨ref, hdrop⟩
  · rw [hdrop]
    exact hpending
  · rw [hdrop]
    exact hpending

theorem Filed.drop (h : w.Filed) (contentHash : String) : (w.drop contentHash).Filed where
  pending k item hitem := h.pending k item (by rw [← w.drop_pending contentHash]; exact hitem)
  stored k f hf := h.stored k f (load_of_drop hf)

theorem Filed.promote (h : w.Filed) (k : String) : (w.promote k).2.Filed := by
  unfold WarmTier.promote
  cases w.pending.get? k with
  | some item =>
    refine { pending := fun c other hother => ?_, stored := h.stored }
    rw [Dict.get?_erase] at hother
    split_ifs at hother
    exact h.pending c other hother
  | none =>
    by_cases hlisted : k ∈ w.index
    · simp only [hlisted, not_true_eq_false, if_false]
      split
      · exact h.drop k
      · split_ifs
        · exact h.drop k
        · exact h.drop k
    · simp only [hlisted, not_false_eq_true, if_true]
      exact h

theorem create_filed {store : sigma} (h : forall k, ContentStore.get store (metaKey k) = none)
    (capacityBytes : Int) (policy : TierPolicy) : (create store capacityBytes policy).Filed := by
  constructor
  · intro k item hitem
    cases hitem
  · intro k f hf
    change (ContentStore.get store (metaKey k)).bind FragmentCodec.loads = some f at hf
    rw [h k] at hf
    cases hf

theorem Filed.demoteLater (h : w.Filed) (f : Fragment) (payload : Option Bytes) :
    (w.demoteLater f payload).Filed := by
  refine { pending := fun k item hitem => ?_, stored := h.stored }
  change (w.pending.set f.key (f, payload)).get? k = some item at hitem
  rw [Dict.get?_set] at hitem
  split_ifs at hitem with hkey
  · cases hitem
    exact hkey.symm
  · exact h.pending k item hitem

instance : LowerTier (WarmTier sigma) where
  promote w contentHash := w.promote contentHash
  demoteLater w f payload := w.demoteLater f payload

end WarmTier

/-!
# A node over a warm tier
-/

namespace Node

section Recalling

attribute [local instance] InventoryHash.constant FragmentCodec.unreadable

def warmConfig (f : Fragment) :
    Config InProcessBytes (WarmTier InProcessBytes) WeightedLRU where
  nodeId := "n0"
  maxMemoryBytes := 200
  indexSystem := Index.IndexSystem.create
  graph := Index.Graph.create
  contentStore := InProcessBytes.create none
  admissionPolicy := none
  quotas := Dict.empty.set "public"
    { tenantId := "public", maxBytes := none, maxEntries := some 1
      usedBytes := 0, usedEntries := 0 }
  tierPolicy := none
  evictionPolicy := WeightedLRU.mk
  lowerTier := some ((WarmTier.create (InProcessBytes.create none) 100
    { hotThreshold := 1, warmThreshold := 1 / 2, archiveThreshold := 0 }).demoteLater f none)

end Recalling

end Node

end Serving
end Membrane
