import Membrane.Store.Tombstones
import Membrane.Transport.Ops

/-!
# Operations of the cluster layer

Deleting a fragment, recording a deletion, taking over the deletions of a gossip
message, and copying what is missing from another node.  The other node is a
parameter: it may answer anything or fail.
-/

namespace Membrane
namespace Transport

open Foundation Data Store Serving

/-!
# Deletions
-/

def tombstoneWindow : ℚ := 60

def deletedBody (contentHash : String) : List (String × Value) :=
  [("success", .bool true), ("content_hash", .text contentHash)]

def opTombstone (tombstones : Option TombstoneTable) (contentHash : String)
    (untilTime : Deadline) (nodeId : String) : Response × Option TombstoneTable :=
  match tombstones with
  | none => (okResponse [("error", .text "no tombstone table configured")], none)
  | some table =>
    (okResponse (deletedBody contentHash),
      some (table.record contentHash untilTime {nodeId}))

section Deletes

variable {sigma tau pi : Type} [InventoryHash] [ContentStore sigma]

/-- A key that is not resident is reported as deleted. -/
def opDelete (n : Node sigma tau pi) (tombstones : Option TombstoneTable)
    (contentHash nodeId : String) (tombstoneUntil : Option Deadline) (now : ℚ) :
    Except NodeError Response × Node sigma tau pi × Option TombstoneTable :=
  if ¬ contentHash ∈ n.fragments then
    (.ok (okResponse [("success", .bool true), ("noop", .bool true),
      ("content_hash", .text contentHash)]), n, tombstones)
  else
    let deadline := tombstoneUntil.getD (now + tombstoneWindow : ℚ)
    let marked := tombstones.map (fun table => table.record contentHash deadline {nodeId})
    match n.removeFragment contentHash with
    | .error raised => (.error raised.error, raised.node, marked)
    | .ok (_, removed) =>
      (.ok (okResponse (deletedBody contentHash)), removed, marked)

theorem opDelete_tombstones (n : Node sigma tau pi) (table : TombstoneTable)
    (contentHash nodeId : String) (tombstoneUntil : Option Deadline) (now : ℚ) :
    (opDelete n (some table) contentHash nodeId tombstoneUntil now).2.2 =
      some (if contentHash ∈ n.fragments then
        table.record contentHash (tombstoneUntil.getD (now + tombstoneWindow : ℚ)) {nodeId}
      else table) := by
  unfold opDelete
  by_cases hk : contentHash ∈ n.fragments
  · simp only [hk, not_true_eq_false, if_false, if_true]
    split <;> rfl
  · simp only [hk, not_false_eq_true, if_true, if_false]

theorem opDelete_node (n : Node sigma tau pi) (tombstones : Option TombstoneTable)
    (contentHash nodeId : String) (tombstoneUntil : Option Deadline) (now : ℚ) :
    (opDelete n tombstones contentHash nodeId tombstoneUntil now).2.1 =
      Node.after (n.removeFragment contentHash) := by
  unfold opDelete
  by_cases hk : contentHash ∈ n.fragments
  · simp only [hk, not_true_eq_false, if_false]
    split <;> rename_i hremove <;> rw [hremove] <;> rfl
  · simp only [hk, not_false_eq_true, if_true]
    unfold Node.removeFragment FragmentTable.pop
    rw [show n.table.fragments.get? contentHash = none from
      (n.fragments.get?_eq_none_iff contentHash).mpr hk]
    rfl

end Deletes

structure GossipState where
  nodeId : String
  fragmentTombstones : Dict String Deadline

/-- A message that cannot be parsed changes nothing. -/
def handleGossip (table : TombstoneTable) : Option GossipState -> TombstoneTable
  | none => table
  | some incoming => incoming.fragmentTombstones.entries.foldl
      (fun table entry => table.record entry.1 entry.2 {incoming.nodeId}) table

section Gossip

variable {table : TombstoneTable} {contentHash : String}
  {deadline : Deadline}

theorem foldl_record_covers (nodeId : String) {entries : List (String × Deadline)}
    (h : table.Covers contentHash deadline ∨ (contentHash, deadline) ∈ entries) :
    (entries.foldl (fun table entry => table.record entry.1 entry.2 {nodeId})
      table).Covers contentHash deadline := by
  induction entries generalizing table with
  | nil => exact h.resolve_right List.not_mem_nil
  | cons entry rest ih =>
    apply ih
    rcases h with h | h
    · exact Or.inl (h.record entry.1 entry.2 {nodeId})
    · rcases List.mem_cons.mp h with rfl | hrest
      · exact Or.inl (TombstoneTable.record_covers contentHash deadline {nodeId})
      · exact Or.inr hrest

end Gossip

/-!
# Synchronization
-/

/-- A node to copy from, as one synchronization sees it.  The bytes are asked for once
for each fragment that lacks them. -/
structure SyncSource where
  url : String
  urlAccepted : Except String Unit
  inventoryDigest : Option (Dict String Int)
  retrieveFragment : String -> Except String (Option Fragment)
  getBlob : String -> String -> Option Bytes

inductive SyncAnswer where
  | missingSourceUrl
  | ssrfRejected (reason : String)
  | network
  | synced (transferred failed : List String) (outdated : Nat)
  deriving DecidableEq

inductive SyncError where
  | source (message : String)
  | node (error : NodeError)
  deriving DecidableEq

structure SyncPlan where
  missingHashes : List String
  outdatedHashes : List String

def planFromDigests (source target : Dict String Int) : SyncPlan :=
  let ordered := source.entries.insertionSort (fun a b => a.1 ≤ b.1)
  { missingHashes := (ordered.filter (fun entry => (target.get? entry.1).isNone)).map Prod.fst
    outdatedHashes := (ordered.filter (fun entry =>
      (target.get? entry.1).any (fun version => version < entry.2))).map Prod.fst }

def SyncPlan.hashes (plan : SyncPlan) : List String :=
  plan.missingHashes ++ plan.outdatedHashes

section Sync

variable {sigma tau pi : Type}

def inventory (n : Node sigma tau pi) : Dict String Int :=
  n.fragments.mapValues (fun f => f.versionId)

def syncPlan (n : Node sigma tau pi) (source : SyncSource) : SyncPlan :=
  planFromDigests (source.inventoryDigest.getD Dict.empty) (inventory n)

variable [ContentStore sigma]

/-- The bytes of a fragment are taken over first; `none` stands for bytes that the source
does not give. -/
def pullPayload (source : SyncSource) (contentHash : String) (f : Fragment)
    (n : Node sigma tau pi) : Except SyncError (Option (Node sigma tau pi)) :=
  match f.payloadRef with
  | none => .ok (some n)
  | some ref =>
    if ContentStore.has n.contentStore ref then .ok (some n)
    else
      match source.getBlob contentHash ref with
      | none => .ok none
      | some data =>
        match ContentStore.put n.contentStore ref data with
        | .error message => .error (.node (.contentStore message))
        | .ok contentStore => .ok (some { n with contentStore := contentStore })

theorem pullPayload_eq {source : SyncSource} {contentHash : String} {f : Fragment}
    {n filled : Node sigma tau pi}
    (h : pullPayload source contentHash f n = .ok (some filled)) :
    filled = { n with contentStore := filled.contentStore } := by
  unfold pullPayload at h
  split at h
  · cases h
    rfl
  · split_ifs at h
    · cases h
      rfl
    · split at h
      · cases h
      · split at h
        · cases h
        · cases h
          rfl

structure Pulling (sigma tau pi : Type) where
  node : Node sigma tau pi
  transferred : List String
  failed : List String
  stored : Nat

variable [InventoryHash] [LowerTier tau] [EvictionPolicy pi]

/-- Copy one fragment.  The clock gives the two readings of each local write. -/
def pull (source : SyncSource) (clock : Nat -> ℚ × ℚ) (p : Pulling sigma tau pi)
    (contentHash : String) : Except SyncError Unit × Pulling sigma tau pi :=
  match source.retrieveFragment contentHash with
  | .error message => (.error (.source message), p)
  | .ok none => (.ok (), { p with failed := p.failed ++ [contentHash] })
  | .ok (some f) =>
    match pullPayload source contentHash f p.node with
    | .error e => (.error e, p)
    | .ok none => (.ok (), { p with failed := p.failed ++ [contentHash] })
    | .ok (some filled) =>
      let readings := clock p.stored
      let written := filled.store f false Caller.internal readings.1 readings.2
      let p := { p with node := written.2, stored := p.stored + 1 }
      match written.1 with
      | .error e => (.error (.node e), p)
      | .ok true =>
        (.ok (), { p with transferred := p.transferred ++ [contentHash] })
      | .ok false => (.ok (), { p with failed := p.failed ++ [contentHash] })

/-- An exception ends the synchronization; what was copied before it stays. -/
def pullAll (source : SyncSource) (clock : Nat -> ℚ × ℚ) :
    List String -> Pulling sigma tau pi -> Except SyncError Unit × Pulling sigma tau pi
  | [], p => (.ok (), p)
  | contentHash :: rest, p =>
    match pull source clock p contentHash with
    | (.error e, p) => (.error e, p)
    | (.ok _, p) => pullAll source clock rest p

def opSync (n : Node sigma tau pi) (source : SyncSource) (clock : Nat -> ℚ × ℚ) :
    Except SyncError SyncAnswer × Node sigma tau pi :=
  if source.url = "" then (.ok .missingSourceUrl, n)
  else
    match source.urlAccepted with
    | .error reason => (.ok (.ssrfRejected reason), n)
    | .ok _ =>
      if source.inventoryDigest.isNone then (.ok .network, n)
      else
        let plan := syncPlan n source
        match pullAll source clock plan.hashes
          { node := n, transferred := [], failed := [], stored := 0 } with
        | (.error e, p) => (.error e, p.node)
        | (.ok _, p) =>
          (.ok (.synced p.transferred p.failed plan.outdatedHashes.length), p.node)

end Sync

end Transport
end Membrane
