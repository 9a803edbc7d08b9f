import Membrane.Transport.Requests

/-!
# Repairing a replica

A repair pass compares the fragments that a peer should hold with its inventory, one
bucket at a time, and pushes what the peer lacks.  The pair of the peer's digest and of
the local expectation is remembered for every bucket that was found complete, and a
bucket whose pair is still the same is skipped.

The peer is whatever answers the requests of the pass.  A request that raises counts as
one without an answer, and so does a list of digests of another length.
-/

namespace Membrane
namespace Transport

open Foundation Data Store Serving

class RepairClient (rho : Type) where
  bucketDigests : rho -> Option (Fin buckets -> BitVec 64) × rho
  inventoryBucket : rho -> Fin buckets -> Option (Dict String Int) × rho
  inventoryDigest : rho -> Option (Dict String Int) × rho
  replicateFragment : rho -> Fragment -> Option Bytes -> Bool × rho

/-- For each bucket that was found complete, the digest of the peer and the digest of
what it was expected to hold. -/
abbrev VerifiedBuckets : Type :=
  Dict (Fin buckets) (BitVec 64 × BitVec 64)

structure Replicator where
  drift : Dict String Nat
  verified : Dict String VerifiedBuckets

namespace Replicator

def create : Replicator where
  drift := Dict.empty
  verified := Dict.empty

def verifiedOn (r : Replicator) (peerId : String) : VerifiedBuckets :=
  r.verified.getD peerId Dict.empty

theorem verifiedOn_set (drift : Dict String Nat) (r : Replicator) (peerId : String)
    (verified : VerifiedBuckets) :
    verifiedOn ⟨drift, r.verified.set peerId verified⟩ peerId = verified := by
  unfold verifiedOn Dict.getD
  rw [Dict.get?_set, if_pos rfl]
  rfl

end Replicator

/-- What a pass reads besides its peer: the stop event before a bucket and before a push,
and the clock while a hash is read from the local node. -/
structure PassReadings where
  thread : Thread
  stopsAtBucket : Fin buckets -> Bool
  stopsAtPush : String -> Bool
  ownTimes : String -> Node.ReadTimes
  times : String -> Node.ReadTimes
  otherTimes : String -> Node.ReadTimes

/-!
# Pushing
-/

structure Pushing (rho sigma tau pi : Type) where
  node : Node sigma tau pi
  peer : rho
  failed : Finset String

section Passes

variable {rho sigma tau pi : Type}
variable [ContentStore sigma] [InventoryHash] [LowerTier tau] [EvictionPolicy pi]

def readLocal (n : Node sigma tau pi) (readings : PassReadings) (contentHash : String) :
    Except NodeError (Option Fragment) × Node sigma tau pi :=
  n.retrieve readings.thread contentHash Caller.internal (readings.ownTimes contentHash)
    (readings.times contentHash) (readings.otherTimes contentHash)

variable [RepairClient rho]

def pushFragment (s : Pushing rho sigma tau pi) (contentHash : String) (f : Fragment) :
    Pushing rho sigma tau pi :=
  let pushed := RepairClient.replicateFragment s.peer f (blobOf s.node f)
  { s with
    peer := pushed.2
    failed := if pushed.1 then s.failed else insert contentHash s.failed }

/-- A hash that is not on the local node any more is passed over. -/
def pushAll (readings : PassReadings) : List String -> Pushing rho sigma tau pi ->
    Except NodeError Unit × Pushing rho sigma tau pi
  | [], s => (.ok (), s)
  | contentHash :: rest, s =>
    if readings.stopsAtPush contentHash then (.ok (), s)
    else
      match readLocal s.node readings contentHash with
      | (.error e, n) => (.error e, { s with node := n })
      | (.ok none, n) => pushAll readings rest { s with node := n }
      | (.ok (some f), n) =>
        pushAll readings rest (pushFragment { s with node := n } contentHash f)

/-!
# Buckets
-/

def group (n : Node sigma tau pi) (found : Dict (Fin buckets) (Dict String Int))
    (contentHash : String) : Dict (Fin buckets) (Dict String Int) :=
  match n.fragments.get? contentHash with
  | none => found
  | some f =>
    found.set (InventoryHash.bucketOf contentHash)
      ((found.getD (InventoryHash.bucketOf contentHash) Dict.empty).set contentHash
        f.versionId)

def groups (n : Node sigma tau pi) (hashes : List String) :
    Dict (Fin buckets) (Dict String Int) :=
  hashes.foldl (group n) Dict.empty

def missingFrom (held expected : Dict String Int) : List String :=
  (expected.entries.filter (fun entry => held.getD entry.1 0 < entry.2)).map Prod.fst

structure Repairing (rho sigma tau pi : Type) where
  node : Node sigma tau pi
  peer : rho
  failed : Finset String
  verified : VerifiedBuckets
  missingTotal : Nat

def remember (verified : VerifiedBuckets) (bucket : Fin buckets) (state : BitVec 64 × BitVec 64)
    (missing : List String) (failed : Finset String) : VerifiedBuckets :=
  if missing = [] then verified.set bucket state
  else if failed = ∅ then verified.erase bucket
  else verified

def pushBucket (readings : PassReadings) (bucket : Fin buckets)
    (state : BitVec 64 × BitVec 64) (missing : List String)
    (s : Repairing rho sigma tau pi) : Except NodeError Unit × Repairing rho sigma tau pi :=
  match pushAll readings missing { node := s.node, peer := s.peer, failed := ∅ } with
  | (.error e, pushed) =>
    (.error e, { s with node := pushed.node, peer := pushed.peer })
  | (.ok _, pushed) =>
    (.ok (),
      { node := pushed.node
        peer := pushed.peer
        failed := s.failed ∪ pushed.failed
        verified := remember s.verified bucket state missing pushed.failed
        missingTotal := s.missingTotal + missing.length })

def repairBucket (remote : Fin buckets -> BitVec 64) (readings : PassReadings)
    (bucket : Fin buckets) (expected : Dict String Int) (s : Repairing rho sigma tau pi) :
    Except NodeError Unit × Repairing rho sigma tau pi :=
  if s.verified.get? bucket = some (remote bucket, fold expected) then (.ok (), s)
  else
    match RepairClient.inventoryBucket s.peer bucket with
    | (none, peer) =>
      (.ok (),
        { s with peer := peer, failed := s.failed ∪ expected.keys.toFinset })
    | (some held, peer) =>
      pushBucket readings bucket (remote bucket, fold expected)
        (missingFrom held expected) { s with peer := peer }

def repairBuckets (remote : Fin buckets -> BitVec 64) (readings : PassReadings) :
    List (Fin buckets × Dict String Int) -> Repairing rho sigma tau pi ->
      Except NodeError Unit × Repairing rho sigma tau pi
  | [], s => (.ok (), s)
  | (bucket, expected) :: rest, s =>
    if readings.stopsAtBucket bucket then (.ok (), s)
    else
      match repairBucket remote readings bucket expected s with
      | (.error e, s) => (.error e, s)
      | (.ok _, s) => repairBuckets remote readings rest s

/-!
# A pass
-/

structure PassOutcome (rho sigma tau pi : Type) where
  answer : Except NodeError (Finset String)
  replicator : Replicator
  node : Node sigma tau pi
  peer : rho

/-- The pass against a peer without bucket digests: one request for the whole inventory,
and no look at the versions. -/
def pushMissingFull (r : Replicator) (n : Node sigma tau pi) (p : rho) (peerId : String)
    (hashes : List String) (readings : PassReadings) : PassOutcome rho sigma tau pi :=
  match RepairClient.inventoryDigest p with
  | (none, p) =>
    { answer := .ok hashes.toFinset, replicator := r, node := n, peer := p }
  | (some held, p) =>
    let missing := hashes.filter (fun contentHash => decide (¬ contentHash ∈ held))
    let pushed := pushAll readings missing { node := n, peer := p, failed := ∅ }
    { answer := pushed.1.map (fun _ => pushed.2.failed)
      replicator := { r with drift := r.drift.set peerId missing.length }
      node := pushed.2.node
      peer := pushed.2.peer }

def startRepair (r : Replicator) (n : Node sigma tau pi) (p : rho) (peerId : String) :
    Repairing rho sigma tau pi where
  node := n
  peer := p
  failed := ∅
  verified := r.verifiedOn peerId
  missingTotal := 0

def pushMissingTo (r : Replicator) (n : Node sigma tau pi) (p : rho) (peerId : String)
    (hashes : List String) (readings : PassReadings) : PassOutcome rho sigma tau pi :=
  match RepairClient.bucketDigests p with
  | (none, p) => pushMissingFull r n p peerId hashes readings
  | (some remote, p) =>
    let repaired := repairBuckets remote readings (groups n hashes).entries
      (startRepair r n p peerId)
    { answer := repaired.1.map (fun _ => repaired.2.failed)
      replicator :=
        { drift :=
            match repaired.1 with
            | .error _ => r.drift
            | .ok _ => r.drift.set peerId repaired.2.missingTotal
          verified := r.verified.set peerId repaired.2.verified }
      node := repaired.2.node
      peer := repaired.2.peer }

/-!
# What a pass expects
-/

def AtLeast (held : Dict String Int) (k : String) (v : Int) : Prop :=
  exists w, held.get? k = some w ∧ v ≤ w

def Covers (held expected : Dict String Int) : Prop :=
  forall k v, expected.get? k = some v -> AtLeast held k v

end Passes

variable {bucket b : Fin buckets} {expected : Dict String Int} {verified : VerifiedBuckets}
  {state p : BitVec 64 × BitVec 64}

section Expectations

variable {sigma tau pi : Type} [InventoryHash] (n : Node sigma tau pi)

theorem get?_group (found : Dict (Fin buckets) (Dict String Int)) (h : String)
    (bucket : Fin buckets) (k : String) :
    ((group n found h).getD bucket Dict.empty).get? k =
      if k = h ∧ InventoryHash.bucketOf k = bucket then
        ((n.fragments.get? k).map (fun f => f.versionId)).or
          ((found.getD bucket Dict.empty).get? k)
      else (found.getD bucket Dict.empty).get? k := by
  unfold group
  cases hf : n.fragments.get? h with
  | none =>
    by_cases hk : k = h ∧ InventoryHash.bucketOf k = bucket
    · rw [if_pos hk, hk.left, hf]
      rfl
    · rw [if_neg hk]
  | some f =>
    show ((((found.set (InventoryHash.bucketOf h) _).get? bucket).getD Dict.empty).get? k) = _
    rw [Dict.get?_set]
    by_cases hbucket : bucket = InventoryHash.bucketOf h
    · rw [if_pos hbucket, Option.getD_some, Dict.get?_set, ← hbucket]
      by_cases hk : k = h
      · rw [if_pos hk, if_pos ⟨hk, by rw [hk, hbucket]⟩, hk, hf]
        rfl
      · rw [if_neg hk, if_neg (fun hboth => hk hboth.left)]
    · rw [if_neg hbucket, if_neg]
      · rfl
      · intro hboth
        exact hbucket (hboth.right.symm.trans (congrArg _ hboth.left))

theorem get?_foldl_group (hashes : List String) (found : Dict (Fin buckets) (Dict String Int))
    (bucket : Fin buckets) (k : String) :
    ((hashes.foldl (group n) found).getD bucket Dict.empty).get? k =
      if k ∈ hashes ∧ InventoryHash.bucketOf k = bucket then
        ((n.fragments.get? k).map (fun f => f.versionId)).or
          ((found.getD bucket Dict.empty).get? k)
      else (found.getD bucket Dict.empty).get? k := by
  induction hashes generalizing found with
  | nil => rfl
  | cons h rest ih =>
    rw [List.foldl_cons, ih, get?_group]
    by_cases hbucket : InventoryHash.bucketOf k = bucket
    · simp only [hbucket, and_true, List.mem_cons]
      by_cases hrest : k ∈ rest
      · by_cases hk : k = h
        · rw [if_pos hrest, if_pos hk, if_pos (Or.inl hk), ← Option.or_assoc, Option.or_self]
        · rw [if_pos hrest, if_neg hk, if_pos (Or.inr hrest)]
      · by_cases hk : k = h
        · rw [if_neg hrest, if_pos hk, if_pos (Or.inl hk)]
        · rw [if_neg hrest, if_neg hk, if_neg (fun hor => hor.elim hk hrest)]
    · simp only [hbucket, and_false, if_false]

theorem get?_groups (hashes : List String) (bucket : Fin buckets) (k : String) :
    ((groups n hashes).getD bucket Dict.empty).get? k =
      if k ∈ hashes ∧ InventoryHash.bucketOf k = bucket then
        (n.fragments.get? k).map (fun f => f.versionId)
      else none := by
  unfold groups
  rw [get?_foldl_group]
  have hempty : (Dict.getD (Dict.empty : Dict (Fin buckets) (Dict String Int)) bucket
      Dict.empty).get? k = none := rfl
  rw [hempty, Option.or_none]

variable {n}

theorem get?_of_mem_groups {hashes : List String}
    (h : (bucket, expected) ∈ (groups n hashes).entries) {k : String} {v : Int} :
    expected.get? k = some v <-> k ∈ hashes ∧ InventoryHash.bucketOf k = bucket ∧
      exists f, n.fragments.get? k = some f ∧ f.versionId = v := by
  have hget : (groups n hashes).getD bucket Dict.empty = expected := by
    unfold Dict.getD
    rw [(Dict.get?_eq_some_iff _ _ _).mpr h]
    rfl
  rw [← hget, get?_groups]
  split_ifs with hk
  · rw [Option.map_eq_some_iff]
    exact ⟨fun hv => ⟨hk.left, hk.right, hv⟩, fun hv => hv.right.right⟩
  · exact ⟨fun hv => (by cases hv), fun hv => absurd ⟨hv.left, hv.right.left⟩ hk⟩

theorem pos_of_mem_groups {hashes : List String}
    (h : (bucket, expected) ∈ (groups n hashes).entries) {k : String} {v : Int}
    (hv : expected.get? k = some v) : 0 < v := by
  obtain ⟨_, _, f, _, hversion⟩ := (get?_of_mem_groups h).mp hv
  rw [← hversion]
  exact Int.lt_of_lt_of_le Int.zero_lt_one f.one_le_versionId

end Expectations

theorem mem_missingFrom_iff {held : Dict String Int}
    (hpos : forall k v, expected.get? k = some v -> 0 < v) (k : String) :
    k ∈ missingFrom held expected <->
      exists v, expected.get? k = some v ∧ ¬ AtLeast held k v := by
  have hlate : forall v, 0 < v -> (held.getD k 0 < v <-> ¬ AtLeast held k v) := by
    intro v hv
    unfold Dict.getD AtLeast
    cases hget : held.get? k with
    | none => exact ⟨fun _ ⟨w, hw, _⟩ => (nomatch hw), fun _ => hv⟩
    | some w =>
      constructor
      · rintro hlt ⟨w', hw', hle⟩
        rw [← Option.some.inj hw'] at hle
        exact absurd hle (not_le.mpr hlt)
      · intro hno
        exact not_le.mp (fun hle => hno ⟨w, rfl, hle⟩)
  refine (expected.mem_filter (fun k v => held.getD k 0 < v) k).trans ?_
  refine exists_congr fun v => and_congr_right fun hv => ?_
  rw [decide_eq_true_eq, hlate v (hpos k v hv)]

theorem covers_of_missingFrom {held : Dict String Int}
    (hpos : forall k v, expected.get? k = some v -> 0 < v) (h : missingFrom held expected = []) :
    Covers held expected := by
  intro k v hv
  by_contra hno
  have hmem := (mem_missingFrom_iff hpos k).mpr ⟨v, hv, hno⟩
  rw [h] at hmem
  exact absurd hmem List.not_mem_nil

/-!
# What the requests of a pass keep
-/

structure KeptByRequests {rho : Type} [RepairClient rho] (holds : rho -> Prop) : Prop where
  bucketDigests : forall p, holds p -> holds (RepairClient.bucketDigests p).2
  inventoryBucket : forall p bucket, holds p -> holds (RepairClient.inventoryBucket p bucket).2
  inventoryDigest : forall p, holds p -> holds (RepairClient.inventoryDigest p).2
  replicateFragment : forall p f payload, holds p ->
    holds (RepairClient.replicateFragment p f payload).2

namespace KeptByRequests

variable {rho sigma tau pi : Type} [RepairClient rho] {holds : rho -> Prop}
variable [ContentStore sigma] [InventoryHash] [LowerTier tau] [EvictionPolicy pi]

section

variable (hkept : KeptByRequests holds)

include hkept

theorem pushAll (readings : PassReadings)
    (hashes : List String) (s : Pushing rho sigma tau pi) (hs : holds s.peer) :
    holds (pushAll readings hashes s).2.peer := by
  induction hashes generalizing s with
  | nil => exact hs
  | cons contentHash rest ih =>
    unfold Transport.pushAll
    split
    · exact hs
    · split
      · exact hs
      · exact ih _ hs
      · exact ih _ (hkept.replicateFragment _ _ _ hs)

theorem pushBucket (readings : PassReadings)
    (bucket : Fin buckets) (state : BitVec 64 × BitVec 64) (missing : List String)
    (s : Repairing rho sigma tau pi) (hs : holds s.peer) :
    holds (pushBucket readings bucket state missing s).2.peer := by
  have hpushed := hkept.pushAll readings missing
    { node := s.node, peer := s.peer, failed := ∅ } hs
  unfold Transport.pushBucket
  split
  next herror =>
      rw [herror] at hpushed
      exact hpushed
  next hok =>
      rw [hok] at hpushed
      exact hpushed

section

variable (remote : Fin buckets -> BitVec 64) (readings : PassReadings)

theorem repairBucket (bucket : Fin buckets) (expected : Dict String Int)
    (s : Repairing rho sigma tau pi) (hs : holds s.peer) :
    holds (repairBucket remote readings bucket expected s).2.peer := by
  have hread := hkept.inventoryBucket s.peer bucket hs
  unfold Transport.repairBucket
  split
  · exact hs
  · split
    next hreply =>
        rw [hreply] at hread
        exact hread
    next hreply =>
        rw [hreply] at hread
        exact hkept.pushBucket readings bucket _ _ _ hread

theorem repairBuckets (entries : List (Fin buckets × Dict String Int))
    (s : Repairing rho sigma tau pi) (hs : holds s.peer) :
    holds (repairBuckets remote readings entries s).2.peer := by
  induction entries generalizing s with
  | nil => exact hs
  | cons entry rest ih =>
    obtain ⟨bucket, expected⟩ := entry
    have hone := hkept.repairBucket remote readings bucket expected s hs
    unfold Transport.repairBuckets
    split
    · exact hs
    · split
      next herror =>
          rw [herror] at hone
          exact hone
      next hok =>
          rw [hok] at hone
          exact ih _ hone

end

theorem pushMissingTo (r : Replicator) (n : Node sigma tau pi) (p : rho) (peerId : String)
    (hashes : List String) (readings : PassReadings) (hp : holds p) :
    holds (pushMissingTo r n p peerId hashes readings).peer := by
  have hread := hkept.bucketDigests p hp
  unfold Transport.pushMissingTo
  split
  next reached hreply =>
      rw [hreply] at hread
      have hwhole := hkept.inventoryDigest reached hread
      unfold pushMissingFull
      split
      next hnone =>
          rw [hnone] at hwhole
          exact hwhole
      next hsome =>
          rw [hsome] at hwhole
          exact hkept.pushAll readings _ _ hwhole
  next hreply =>
      rw [hreply] at hread
      exact hkept.repairBuckets _ readings _ _ hread

end

end KeptByRequests

/-!
# What a pass remembers
-/

theorem get?_remember {missing : List String} {failed : Finset String}
    (h : (remember verified bucket state missing failed).get? b = some p) :
    verified.get? b = some p ∨ (b = bucket ∧ p = state ∧ missing = []) := by
  unfold remember at h
  split at h
  next hnone =>
      rw [Dict.get?_set] at h
      split at h
      next hb => exact Or.inr ⟨hb, (Option.some.inj h).symm, hnone⟩
      · exact Or.inl h
  · split at h
    · rw [Dict.get?_erase] at h
      split at h
      · cases h
      · exact Or.inl h
    · exact Or.inl h

theorem get?_remember_of_ne (hb : b ≠ bucket) {missing : List String} {failed : Finset String} :
    (remember verified bucket state missing failed).get? b = verified.get? b := by
  unfold remember
  split
  · exact Dict.get?_set_of_ne _ _ hb
  · split
    · exact Dict.get?_erase_of_ne _ hb
    · rfl

section Remembered

variable {rho sigma tau pi : Type} [RepairClient rho]
variable [ContentStore sigma] [InventoryHash] [LowerTier tau] [EvictionPolicy pi]

theorem get?_repairBucket_of_ne (remote : Fin buckets -> BitVec 64) (readings : PassReadings)
    (hb : b ≠ bucket) (expected : Dict String Int) (s : Repairing rho sigma tau pi) :
    (repairBucket remote readings bucket expected s).2.verified.get? b = s.verified.get? b := by
  unfold repairBucket
  split
  · rfl
  · split
    · rfl
    · unfold pushBucket
      split
      · rfl
      · exact get?_remember_of_ne hb

theorem verified_of_repairBucket {remote : Fin buckets -> BitVec 64} {readings : PassReadings}
    {s : Repairing rho sigma tau pi}
    (h : (repairBucket remote readings bucket expected s).2.verified.get? b = some p) :
    s.verified.get? b = some p ∨
      (b = bucket ∧ p = (remote bucket, fold expected) ∧
        s.verified.get? bucket ≠ some (remote bucket, fold expected) ∧
        exists held peer, RepairClient.inventoryBucket s.peer bucket = (some held, peer) ∧
          missingFrom held expected = []) := by
  unfold repairBucket at h
  split at h
  · exact Or.inl h
  next hnew =>
      split at h
      · exact Or.inl h
      next held peer hreply =>
          unfold pushBucket at h
          split at h
          · exact Or.inl h
          · rcases get?_remember h with hold | ⟨hb, hp, hmissing⟩
            · exact Or.inl hold
            · exact Or.inr ⟨hb, hp, hnew, held, peer, hreply, hmissing⟩

end Remembered

end Transport
end Membrane
