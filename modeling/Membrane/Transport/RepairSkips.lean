import Membrane.Transport.Repair

/-!
# Skipped buckets

A bucket is skipped when the digest of the peer and the local expectation are those
remembered from a pass that found the bucket complete.  The digest and the inventory
that vouch for each other are read in two requests, and the peer may change between
them.

The peer is a digest that changes by additions and removals at every request.  No hash
of 64 bits is free of collisions on all dictionaries, so the digests are taken to be
free of collisions on those that occur in the run.
-/

namespace Membrane
namespace Transport

open Foundation Data Store Serving

/-!
# A peer that moves
-/

inductive InventoryChange where
  | add (contentHash : String) (version : Int)
  | remove (contentHash : String)

structure Turn where
  changes : List InventoryChange
  answered : Bool

structure MovingPeer where
  held : InventoryDigest
  script : List Turn

section Moving

variable [InventoryHash]

def InventoryChange.apply (d : InventoryDigest) : InventoryChange -> InventoryDigest
  | .add contentHash version => d.add contentHash version
  | .remove contentHash => d.remove contentHash

namespace MovingPeer

def advance (p : MovingPeer) : MovingPeer :=
  match p.script with
  | [] => p
  | turn :: rest => { held := turn.changes.foldl InventoryChange.apply p.held, script := rest }

def answers (p : MovingPeer) : Bool :=
  match p.script with
  | [] => true
  | turn :: _ => turn.answered

def reply {alpha : Type} (p : MovingPeer) (read : InventoryDigest -> alpha) :
    Option alpha × MovingPeer :=
  (if p.answers then some (read p.advance.held) else none, p.advance)

def wholeInventory (d : InventoryDigest) : Dict String Int :=
  (List.finRange buckets).foldl (fun found bucket => found.update (d.members bucket)) Dict.empty

/-- What a push does to the peer is among its changes. -/
instance : RepairClient MovingPeer where
  bucketDigests p := p.reply (fun d => d.digests)
  inventoryBucket p bucket := p.reply (fun d => d.members bucket)
  inventoryDigest p := p.reply wholeInventory
  replicateFragment p _ _ := (p.answers, p.advance)

def WellFormed (d : InventoryDigest) : Prop :=
  exists inventory, d.Mirrors inventory

theorem apply_wellFormed {d : InventoryDigest} (h : WellFormed d) (change : InventoryChange) :
    WellFormed (change.apply d) := by
  obtain ⟨inventory, hd⟩ := h
  cases change with
  | add contentHash version => exact ⟨_, InventoryDigest.add_mirrors hd contentHash version⟩
  | remove contentHash => exact ⟨_, InventoryDigest.remove_mirrors hd contentHash⟩

theorem foldl_apply_wellFormed {d : InventoryDigest} (h : WellFormed d)
    (changes : List InventoryChange) :
    WellFormed (changes.foldl InventoryChange.apply d) := by
  induction changes generalizing d with
  | nil => exact h
  | cons change rest ih => exact ih (apply_wellFormed h change)

theorem advance_wellFormed {p : MovingPeer} (h : WellFormed p.held) :
    WellFormed p.advance.held := by
  unfold advance
  split
  · exact h
  · exact foldl_apply_wellFormed h _

theorem reply_eq_some {alpha : Type} {p q : MovingPeer} {read : InventoryDigest -> alpha}
    {a : alpha} (h : p.reply read = (some a, q)) : q = p.advance ∧ a = read p.advance.held := by
  unfold reply at h
  split at h
  · cases h
    exact ⟨rfl, rfl⟩
  · cases h

end MovingPeer

/-!
# Passes
-/

structure Tended where
  replicator : Replicator
  held : InventoryDigest

structure RepairPass (sigma tau pi : Type) where
  node : Node sigma tau pi
  hashes : List String
  readings : PassReadings
  script : List Turn

namespace Tended

variable {sigma tau pi : Type}

def peer (s : Tended) (pass : RepairPass sigma tau pi) : MovingPeer :=
  { held := s.held, script := pass.script }

def digestRead (s : Tended) (pass : RepairPass sigma tau pi) : MovingPeer :=
  (s.peer pass).advance

/-- The digests are answered, and they and the expectation are those remembered for the
bucket. -/
def Skips (peerId : String) (s : Tended) (pass : RepairPass sigma tau pi)
    (bucket : Fin buckets) (expected : Dict String Int) : Prop :=
  (s.peer pass).answers = true ∧
    (bucket, expected) ∈ (groups pass.node pass.hashes).entries ∧
    (s.replicator.verifiedOn peerId).get? bucket =
      some ((s.digestRead pass).held.digests bucket, fold expected)

/-- The peer held everything that the skipped buckets were expected to hold. -/
def SkipsCovered (peerId : String) (s : Tended) (pass : RepairPass sigma tau pi) : Prop :=
  forall bucket expected, s.Skips peerId pass bucket expected ->
    Covers ((s.digestRead pass).held.members bucket) expected

/-!
# Free of collisions
-/

/-- Dictionaries with the same digest have the same entries. -/
def CollisionFree (occurring : Dict String Int -> Prop) : Prop :=
  forall first second, occurring first -> occurring second -> fold first = fold second ->
    forall k, first.get? k = second.get? k

def Occurs (occurring : Dict String Int -> Prop) (s : Tended)
    (pass : RepairPass sigma tau pi) : Prop :=
  (forall bucket, occurring ((s.digestRead pass).held.members bucket)) ∧
    forall bucket expected, (bucket, expected) ∈ (groups pass.node pass.hashes).entries ->
      occurring expected

/-!
# What is remembered
-/

def Vouched (occurring : Dict String Int -> Prop) (verified : VerifiedBuckets) : Prop :=
  forall bucket state, verified.get? bucket = some state ->
    exists held expected, occurring held ∧ occurring expected ∧
      state = (fold held, fold expected) ∧ Covers held expected

variable {occurring : Dict String Int -> Prop}

structure Sound (occurring : Dict String Int -> Prop) (peerId : String) (s : Tended) : Prop where
  wellFormed : MovingPeer.WellFormed s.held
  vouched : Vouched occurring (s.replicator.verifiedOn peerId)

variable {peerId : String} {s : Tended} {pass : RepairPass sigma tau pi}

theorem Sound.digests (h : Sound occurring peerId s) (pass : RepairPass sigma tau pi)
    (bucket : Fin buckets) :
    (s.digestRead pass).held.digests bucket =
      fold ((s.digestRead pass).held.members bucket) := by
  obtain ⟨inventory, hmirrors⟩ := MovingPeer.advance_wellFormed (p := s.peer pass) h.wellFormed
  exact hmirrors.digests_eq bucket

theorem Sound.skipsCovered (h : Sound occurring peerId s) (hfree : CollisionFree occurring)
    (hoccurs : s.Occurs occurring pass) : s.SkipsCovered peerId pass := by
  rintro bucket expected ⟨_, hmem, hstate⟩
  obtain ⟨held, wanted, hheld, hwanted, hpair, hcovers⟩ := h.vouched bucket _ hstate
  rw [h.digests pass bucket] at hpair
  obtain ⟨hdigest, hexpected⟩ := Prod.mk.inj hpair
  have hsame := hfree _ _ (hoccurs.left bucket) hheld hdigest
  have hsameWanted := hfree _ _ (hoccurs.right bucket expected hmem) hwanted hexpected
  intro k v hv
  rw [hsameWanted] at hv
  obtain ⟨w, hw, hle⟩ := hcovers k v hv
  exact ⟨w, (hsame k).trans hw, hle⟩

/-!
# Steady passes
-/

variable [ContentStore sigma] [LowerTier tau] [EvictionPolicy pi]

def repair (peerId : String) (s : Tended) (pass : RepairPass sigma tau pi) : Tended :=
  let outcome := pushMissingTo s.replicator pass.node (s.peer pass) peerId pass.hashes
    pass.readings
  { replicator := outcome.replicator, held := outcome.peer.held }

/-- The bucket is not completed between two states of the peer. -/
def NotCompleted (before after : InventoryDigest) (bucket : Fin buckets)
    (expected : Dict String Int) : Prop :=
  Covers (after.members bucket) expected -> Covers (before.members bucket) expected

/-- No bucket is completed between the read of the digests and the read of the bucket. -/
def SteadyFrom (remote : Fin buckets -> BitVec 64) (readings : PassReadings)
    (read : InventoryDigest) : List (Fin buckets × Dict String Int) ->
      Repairing MovingPeer sigma tau pi -> Prop
  | [], _ => True
  | (bucket, expected) :: rest, s =>
    readings.stopsAtBucket bucket = false ->
      (s.verified.get? bucket ≠ some (remote bucket, fold expected) ->
        NotCompleted read s.peer.advance.held bucket expected) ∧
      match repairBucket remote readings bucket expected s with
      | (.error _, _) => True
      | (.ok _, next) => SteadyFrom remote readings read rest next

def Steady (peerId : String) (s : Tended) (pass : RepairPass sigma tau pi) : Prop :=
  (s.peer pass).answers = true ->
    SteadyFrom (s.digestRead pass).held.digests pass.readings (s.digestRead pass).held
      (groups pass.node pass.hashes).entries
      (startRepair s.replicator pass.node (s.digestRead pass) peerId)

theorem repairBuckets_vouched {remote : Fin buckets -> BitVec 64} {readings : PassReadings}
    {read : InventoryDigest}
    (hremote : forall bucket, remote bucket = fold (read.members bucket))
    (hread : forall bucket, occurring (read.members bucket))
    {entries : List (Fin buckets × Dict String Int)}
    (hentries : forall bucket expected, (bucket, expected) ∈ entries ->
      occurring expected ∧ forall k v, expected.get? k = some v -> 0 < v)
    {s : Repairing MovingPeer sigma tau pi} (hs : Vouched occurring s.verified)
    (hsteady : SteadyFrom remote readings read entries s) :
    Vouched occurring (repairBuckets remote readings entries s).2.verified := by
  induction entries generalizing s with
  | nil => exact hs
  | cons entry rest ih =>
    obtain ⟨bucket, expected⟩ := entry
    unfold repairBuckets
    split
    · exact hs
    next hgoes =>
        obtain ⟨hopen, hnext⟩ := hsteady (Bool.eq_false_iff.mpr hgoes)
        obtain ⟨hoccurs, hpos⟩ := hentries bucket expected List.mem_cons_self
        have hone : Vouched occurring
            (repairBucket remote readings bucket expected s).2.verified := by
          intro b state hstate
          rcases verified_of_repairBucket hstate with
            hold | ⟨_, hp, hnew, held, peer, hreply, hmissing⟩
          · exact hs b state hold
          · have hheld := (MovingPeer.reply_eq_some hreply).right
            have hcovers := covers_of_missingFrom hpos hmissing
            rw [hheld] at hcovers
            refine ⟨read.members bucket, expected, hread bucket, hoccurs, ?_,
              hopen hnew hcovers⟩
            rw [hp, hremote]
        cases hrepair : repairBucket remote readings bucket expected s with
        | mk result next =>
          rw [hrepair] at hone hnext
          cases result with
          | error e => exact hone
          | ok _ =>
            exact ih (fun b e hmem => hentries b e (List.mem_cons_of_mem _ hmem))
              hone hnext

theorem verifiedOn_repair (peerId : String) (s : Tended) (pass : RepairPass sigma tau pi) :
    (s.repair peerId pass).replicator.verifiedOn peerId =
      if (s.peer pass).answers then
        (repairBuckets (s.digestRead pass).held.digests pass.readings
          (groups pass.node pass.hashes).entries
          (startRepair s.replicator pass.node (s.digestRead pass) peerId)).2.verified
      else s.replicator.verifiedOn peerId := by
  unfold repair pushMissingTo
  cases hanswers : (s.peer pass).answers with
  | true =>
    have hreply : RepairClient.bucketDigests (s.peer pass) =
        (some (s.digestRead pass).held.digests, s.digestRead pass) := by
      show (if (s.peer pass).answers then _ else _, _) = _
      rw [hanswers]
      rfl
    rw [hreply]
    exact Replicator.verifiedOn_set _ s.replicator peerId _
  | false =>
    have hreply : RepairClient.bucketDigests (s.peer pass) =
        (none, s.digestRead pass) := by
      show (if (s.peer pass).answers then _ else _, _) = _
      rw [hanswers]
      rfl
    rw [hreply]
    show (pushMissingFull s.replicator pass.node (s.digestRead pass) peerId pass.hashes
      pass.readings).replicator.verifiedOn peerId = _
    unfold pushMissingFull
    split
    · rfl
    · rfl

theorem wellFormed_keptByRequests :
    KeptByRequests (fun p : MovingPeer => MovingPeer.WellFormed p.held) where
  bucketDigests _ hp := MovingPeer.advance_wellFormed hp
  inventoryBucket _ _ hp := MovingPeer.advance_wellFormed hp
  inventoryDigest _ hp := MovingPeer.advance_wellFormed hp
  replicateFragment _ _ _ hp := MovingPeer.advance_wellFormed hp

theorem Sound.repair (h : Sound occurring peerId s) (hoccurs : s.Occurs occurring pass)
    (hsteady : s.Steady peerId pass) : Sound occurring peerId (s.repair peerId pass) := by
  constructor
  · exact wellFormed_keptByRequests.pushMissingTo s.replicator pass.node (s.peer pass) peerId
      pass.hashes pass.readings h.wellFormed
  · rw [verifiedOn_repair]
    split
    next hanswers =>
        refine repairBuckets_vouched (h.digests pass) hoccurs.left ?_ h.vouched
          (hsteady hanswers)
        intro bucket expected hmem
        exact ⟨hoccurs.right bucket expected hmem, fun k v hv => pos_of_mem_groups hmem hv⟩
    · exact h.vouched

/-- In every run of steady passes, the peer held what was expected of the buckets that
are skipped. -/
theorem run_skipsCovered (hfree : CollisionFree occurring) (peerId : String)
    {held : InventoryDigest} (hheld : MovingPeer.WellFormed held)
    {passes : List (RepairPass sigma tau pi)}
    (hoccurs : Along (repair peerId) (Occurs occurring) ⟨Replicator.create, held⟩ passes)
    (hsteady : Along (repair peerId) (Steady peerId) ⟨Replicator.create, held⟩ passes) :
    Along (repair peerId) (SkipsCovered peerId) ⟨Replicator.create, held⟩ passes := by
  have hstart : Sound occurring peerId ⟨Replicator.create, held⟩ :=
    ⟨hheld, fun _ _ hstate => (nomatch hstate)⟩
  exact along_of_along (Sound occurring peerId)
    (fun _ _ hs hpass => hs.repair hpass.left hpass.right)
    (fun _ _ hs hpass => hs.skipsCovered hfree hpass.left) hstart (hoccurs.and hsteady)

end Tended

end Moving

section Returning

/-- The hash that tells one version of one key from everything else. -/
@[reducible] def InventoryHash.tellsApart : InventoryHash where
  bucketOf _ := ⟨0, buckets_pos⟩
  leaf contentHash version := if contentHash = "h" ∧ version = 1 then 1 else 0

attribute [local instance] InventoryHash.tellsApart

namespace Tended

def holder : Node InProcessBytes Empty WeightedLRU :=
  (Node.create (Config.default "n0" 100)).call
    (.mutation (.store publicCopy true Caller.internal 1 1))

def passing (script : List Turn) : RepairPass InProcessBytes Empty WeightedLRU where
  node := holder
  hashes := ["h"]
  readings :=
    { thread := 0
      stopsAtBucket := fun _ => false
      stopsAtPush := fun _ => false
      ownTimes := fun _ => ⟨1, 1, 1⟩
      times := fun _ => ⟨1, 1, 1⟩
      otherTimes := fun _ => ⟨1, 1, 1⟩ }
  script := script

def emptyOrHeld (d : Dict String Int) : Prop :=
  d = Dict.empty ∨ d = Dict.empty.set "h" 1

theorem emptyOrHeld_collisionFree : CollisionFree emptyOrHeld := by
  rintro first second (hfirst | hfirst) (hsecond | hsecond) hfold
  · rw [hfirst, hsecond]
    exact fun _ => rfl
  · rw [hfirst, hsecond] at hfold
    exact absurd hfold (by decide)
  · rw [hfirst, hsecond] at hfold
    exact absurd hfold (by decide)
  · rw [hfirst, hsecond]
    exact fun _ => rfl

def untended : Tended where
  replicator := Replicator.create
  held := InventoryDigest.empty

def heldInTime : List (RepairPass InProcessBytes Empty WeightedLRU) :=
  [passing [⟨[.add "h" 1], true⟩], passing []]

def heldBetween : List (RepairPass InProcessBytes Empty WeightedLRU) :=
  [passing [⟨[], true⟩, ⟨[.add "h" 1], true⟩], passing [⟨[.remove "h"], true⟩]]

theorem groups_holder :
    (groups holder ["h"]).entries = [(⟨0, by decide⟩, Dict.empty.set "h" 1)] := by
  decide +kernel

theorem mem_groups_passing (script : List Turn) :
    (⟨0, by decide⟩, Dict.empty.set "h" 1) ∈
      (groups (passing script).node (passing script).hashes).entries := by
  show _ ∈ (groups holder ["h"]).entries
  rw [groups_holder]
  exact List.mem_singleton.mpr rfl

theorem members_added (bucket : Fin buckets) :
    emptyOrHeld ((InventoryDigest.empty.add "h" 1).members bucket) := by
  have hmembers : (InventoryDigest.empty.add "h" 1).members =
      Function.update (fun _ => Dict.empty) ⟨0, by decide⟩ (Dict.empty.set "h" 1) := rfl
  rw [hmembers, Function.update_apply]
  split
  · exact Or.inr rfl
  · exact Or.inl rfl

theorem occurs_passing {s : Tended} {script : List Turn}
    (h : forall bucket, emptyOrHeld ((s.digestRead (passing script)).held.members bucket)) :
    s.Occurs emptyOrHeld (passing script) := by
  refine ⟨h, fun bucket expected hmem => ?_⟩
  have hentry : (bucket, expected) ∈ (groups holder ["h"]).entries := hmem
  exact Or.inr (congrArg Prod.snd (List.mem_singleton.mp hentry))

theorem heldInTime_occurs : Along (repair "n1") (Occurs emptyOrHeld) untended heldInTime :=
  ⟨occurs_passing members_added, occurs_passing members_added, trivial⟩

theorem heldInTime_steady : Along (repair "n1") (Steady "n1") untended heldInTime := by
  refine ⟨fun _ => ?_, fun _ => ?_, trivial⟩
  · intro _
    exact ⟨fun _ hcovers => hcovers, trivial⟩
  · intro _
    exact ⟨fun _ hcovers => hcovers, trivial⟩

/-- The second pass skips the bucket, and the peer holds what is expected of it. -/
theorem heldInTime_skipsCovered :
    (repair "n1" untended (passing [⟨[.add "h" 1], true⟩])).Skips "n1"
        (passing []) ⟨0, by decide⟩ (Dict.empty.set "h" 1) ∧
      Along (repair "n1") (SkipsCovered "n1") untended heldInTime := by
  refine ⟨⟨rfl, mem_groups_passing _, by decide +kernel⟩, ?_⟩
  exact run_skipsCovered emptyOrHeld_collisionFree "n1"
    ⟨_, InventoryDigest.mirrors_empty⟩ heldInTime_occurs heldInTime_steady

theorem members_removed (bucket : Fin buckets) :
    emptyOrHeld (((InventoryDigest.empty.add "h" 1).remove "h").members bucket) := by
  have hmembers : ((InventoryDigest.empty.add "h" 1).remove "h").members =
      Function.update (InventoryDigest.empty.add "h" 1).members ⟨0, by decide⟩
        Dict.empty := rfl
  rw [hmembers, Function.update_apply]
  split
  · exact Or.inl rfl
  · exact members_added bucket

theorem heldBetween_not_skipsCovered :
    CollisionFree emptyOrHeld ∧
      Along (repair "n1") (Occurs emptyOrHeld) untended heldBetween ∧
      ¬ Along (repair "n1") (SkipsCovered "n1") untended heldBetween := by
  refine ⟨emptyOrHeld_collisionFree, ⟨?_, ?_, trivial⟩, ?_⟩
  · exact occurs_passing (fun _ => Or.inl rfl)
  · exact occurs_passing members_removed
  · rintro ⟨_, hskips, _⟩
    have hcovers := hskips ⟨0, by decide⟩ (Dict.empty.set "h" 1)
      ⟨rfl, mem_groups_passing _, by decide +kernel⟩
    obtain ⟨w, hw, _⟩ := hcovers "h" 1 rfl
    have habsent : none = some w := hw
    exact (nomatch habsent)

end Tended

end Returning

end Transport
end Membrane
