import Mathlib.Data.Finset.Sort
import Membrane.Services.Memory

/-!
# Placement

A node answers where the fragments of a prompt can be fetched in the cluster.  Its own
prefix match comes first; behind it the prompt is cut into windows, and each window is
looked up among the nodes that are known to hold its hash.
-/

namespace Membrane
namespace Services

open Foundation Data Store Serving

structure Telemetry where
  nodeId : String
  latencyMs : ℚ
  bandwidthCost : ℚ
  gpuLoad : ℚ
  memoryPressure : ℚ

structure PeerReport where
  nodeId : String
  region : String
  latencyMs : ℚ
  gpuLoad : ℚ
  memoryPressure : ℚ

structure ClusterAnswers where
  healthy : List PeerReport
  locateFragment : String -> Finset String
  ringNodes : String -> Nat -> Except String (List String)
  url : String -> Option String

structure ClusterView (sigma tau pi : Type) where
  node : Node sigma tau pi
  region : String
  cluster : Option ClusterAnswers
  replicaCount : Nat
  gpuLoad : ℚ

def crossRegionCost : ℚ := 1 / 2

def windowTokens : Nat := 128

structure Placement where
  fetchFrom : String
  storeOn : String
  prefillOn : String
  reason : String
  deriving DecidableEq

namespace ClusterView

variable {sigma tau pi : Type} (view : ClusterView sigma tau pi)

def localId : String := view.node.nodeId

def heartbeat : ℚ :=
  if view.node.maxMemoryBytes = 0 then 1
  else min 1 ((view.node.table.memoryUsage : ℚ) / view.node.maxMemoryBytes)

def peerTelemetry (peer : PeerReport) : Telemetry :=
  { nodeId := peer.nodeId
    latencyMs := peer.latencyMs
    bandwidthCost :=
      if view.region ≠ "" ∧ peer.region ≠ "" ∧ peer.region ≠ view.region then
        crossRegionCost
      else 0
    gpuLoad := peer.gpuLoad
    memoryPressure := peer.memoryPressure }

def telemetry : Dict String Telemetry :=
  let home : Dict String Telemetry := Dict.empty.set view.localId
    { nodeId := view.localId
      latencyMs := 0
      bandwidthCost := 0
      gpuLoad := view.gpuLoad
      memoryPressure := view.heartbeat }
  match view.cluster with
  | none => home
  | some cluster => cluster.healthy.foldl
      (fun result peer => result.set peer.nodeId (view.peerTelemetry peer)) home

def nodes : List String :=
  view.telemetry.keys

/-- The healthy nodes that are known to hold a hash, this one first.  The caller is not
passed on: any tenant's copy counts. -/
def holders (contentHash : String) : List String :=
  let found := if (view.node.locate contentHash Caller.internal).isSome then [view.localId]
    else []
  match view.cluster with
  | none => found
  | some cluster =>
    (found ++ ((cluster.locateFragment contentHash).filter
      (fun nodeId => nodeId ∈ view.nodes)).sort).eraseDups

def owners (contentHash : String) : List String :=
  match view.cluster with
  | none => [view.localId]
  | some cluster =>
    match cluster.ringNodes contentHash (view.replicaCount + 1) with
    | .error _ => [view.localId]
    | .ok ring =>
      match ring.filter (fun nodeId => nodeId ∈ view.nodes) with
      | [] => [view.localId]
      | first :: rest => first :: rest

def probableHolders (contentHash : String) : List String :=
  if view.holders contentHash ≠ [] ∨ view.cluster.isNone then view.holders contentHash
  else (view.owners contentHash).filter (fun nodeId => nodeId ≠ view.localId)

def url (nodeId : String) : Option String :=
  match view.cluster with
  | none => none
  | some cluster => if nodeId = view.localId then none else cluster.url nodeId

def latency (nodeId : String) : Option ℚ :=
  if nodeId = view.localId then some 0
  else (view.telemetry.get? nodeId).map (fun t => t.latencyMs)

def nearer : Option ℚ -> Option ℚ -> Bool
  | some a, some b => a < b
  | some _, none => true
  | none, _ => false

def nearest : List String -> String
  | [] => ""
  | first :: rest => rest.foldl
      (fun best nodeId =>
        if nearer (view.latency nodeId) (view.latency best) then nodeId else best) first

end ClusterView

/-!
# Policies
-/

class PlacementPolicy (rho sigma tau pi : Type) where
  place : rho -> ClusterView sigma tau pi -> String -> List String -> Placement

inductive RingPlacement where
  | ring

instance (sigma tau pi : Type) : PlacementPolicy RingPlacement sigma tau pi where
  place _ view contentHash _ :=
    let owners := view.owners contentHash
    let holders := view.probableHolders contentHash
    { fetchFrom :=
        match owners.filter (fun nodeId => nodeId ∈ holders) with
        | first :: _ => first
        | [] => view.nearest holders
      storeOn := owners.headD view.localId
      prefillOn := view.localId
      reason := "ring owner" }

/-!
# The service
-/

structure Located where
  contentHash : String
  nodeId : String
  url : Option String
  deriving DecidableEq

structure PlacementService (rho sigma tau pi : Type) where
  view : ClusterView sigma tau pi
  policy : rho
  memory : Option (MemoryService sigma tau pi)
  shared : forall m, m ∈ memory -> m.node = view.node

namespace PlacementService

variable {rho sigma tau pi : Type} (s : PlacementService rho sigma tau pi)

def located (contentHash nodeId : String) : Located :=
  { contentHash := contentHash, nodeId := nodeId, url := s.view.url nodeId }

variable [PlacementPolicy rho sigma tau pi]

/-- The node from which a hash is fetched: the policy's choice if it holds the hash, or
else the first holder. -/
def source (history : List String) (contentHash : String) : Option String :=
  match s.view.holders contentHash with
  | [] => none
  | first :: rest =>
    let chosen := (PlacementPolicy.place s.policy s.view contentHash history).fetchFrom
    some (if chosen ∈ first :: rest then chosen else first)

variable [TokenHash]

def scanWindows (tokens : List Int) (history : List String) :
    Nat -> Int × List Located -> Int × List Located
  | 0, found => found
  | rounds + 1, (matched, found) =>
    if matched < tokens.length then
      let window := (tokens.drop matched.toNat).take windowTokens
      let contentHash := TokenHash.tokenHash window
      match s.source history contentHash with
      | none => (matched, found)
      | some nodeId => scanWindows tokens history rounds
          (matched + window.length, found ++ [s.located contentHash nodeId])
    else (matched, found)

variable [InventoryHash] [ContentStore sigma] [LowerTier tau] [EvictionPolicy pi]
  [PrefixDigest]

def localMatch (tokens : List Int) (modelId : String) (caller : Caller)
    (lookedUpAt mintedAt now : ℚ) : Except ServiceError (Int × List String) :=
  match s.memory with
  | none => .ok (0, [])
  | some m =>
    match (m.prefixLookup tokens modelId caller lookedUpAt mintedAt now).1 with
    | .error e => .error e
    | .ok answer => .ok (answer.matchedTokens, answer.fragments)

def cachedPrefix (tokens : List Int) (modelId : String) (caller : Caller)
    (history : List String) (lookedUpAt mintedAt now : ℚ) :
    Except ServiceError (Int × List Located) :=
  match s.localMatch tokens modelId caller lookedUpAt mintedAt now with
  | .error e => .error e
  | .ok (matched, hashes) =>
    let found := hashes.map (fun h => s.located h s.view.localId)
    if matched % windowTokens ≠ 0 then .ok (matched, found)
    else .ok (s.scanWindows tokens history tokens.length (matched, found))

/-- The matched tokens and the fragments of a route answer.  Without a prompt the policy
places the given hash. -/
def routeFragments (contentHash : String) (tokens : List Int) (modelId : String)
    (caller : Caller) (history : List String) (lookedUpAt mintedAt now : ℚ) :
    Except ServiceError (Int × List Located) :=
  if tokens ≠ [] then
    s.cachedPrefix tokens modelId caller history lookedUpAt mintedAt now
  else
    let placement := PlacementPolicy.place s.policy s.view contentHash history
    .ok (0,
      if contentHash ≠ "" ∧ placement.fetchFrom ≠ "" then
        [s.located contentHash placement.fetchFrom]
      else [])

end PlacementService

end Services
end Membrane
