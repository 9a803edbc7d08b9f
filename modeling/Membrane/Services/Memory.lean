import Membrane.Serving.Node
import Membrane.Services.PrefixCache
import Membrane.Services.Reconstructor

/-!
# The memory service

Prompts are matched against the index of one node on behalf of a caller.  A
fragment found through the index counts only when the caller can read a resident
copy of its content.  Matched prefixes are remembered in the prefix cache, with the
hashes they rest on.
-/

namespace Membrane
namespace Services

open Foundation Data Store Index Serving

structure Backend where
  prefill : List Int -> String -> Except String (List Fragment)
  simulatedPayload : Fragment -> Except String (Option Bytes)

inductive ServiceError where
  | raised (message : String)
  | node (error : NodeError)
  deriving DecidableEq

structure MemoryService (sigma tau pi : Type) where
  node : Node sigma tau pi
  backend : Option Backend
  compat : Option { fingerprint : String // ValidFingerprint fingerprint }
  prefixCache : PrefixCache
  covers : Dict String (List String)
  dependents : Dict String (Finset String)

structure LookupAnswer where
  matchedTokens : Int
  totalTokens : Nat
  full : Bool
  fragments : List String
  cached : Bool
  deriving DecidableEq

def lookupAnswer (matched : Int) (total : Nat) (hashes : List String) (cached : Bool) :
    LookupAnswer :=
  { matchedTokens := matched
    totalTokens := total
    full := 0 < total ∧ matched = total
    fragments := hashes
    cached := cached }

/-- Walk the fragments, sorted by start, as long as each starts where the last ended. -/
def walkPrefix : Int -> List Fragment -> Int × List String
  | matched, [] => (matched, [])
  | matched, f :: rest =>
    if f.identity.tokenSpan.1 ≠ matched then (matched, [])
    else
      let walked := walkPrefix (f.identity.tokenSpan.2 + 1) rest
      (walked.1, f.payloadHash :: walked.2)

def cacheKey (tenant modelId : String) : String :=
  tenant ++ String.singleton '\x00' ++ modelId

def ownCopy {sigma tau pi : Type} (n : Node sigma tau pi) (f : Fragment) (caller : Caller) :
    Option Fragment :=
  match n.locate f.payloadHash caller with
  | none => none
  | some key => (n.fragments.get? key).filter (fun copy => canRead copy.tenantId caller)

namespace MemoryService

variable {sigma tau pi : Type}

def create (node : Node sigma tau pi) (backend : Option Backend)
    (compat : Option { fingerprint : String // ValidFingerprint fingerprint })
    (prefixCacheCapacity : Nat) : MemoryService sigma tau pi :=
  { node := node
    backend := backend
    compat := compat
    prefixCache := PrefixCache.create prefixCacheCapacity
    covers := Dict.empty
    dependents := Dict.empty }

/-- A fragment left the node under the given key: every remembered match that rests on
its content is dropped. -/
def onRemoved (m : MemoryService sigma tau pi) (contentHash : String) :
    MemoryService sigma tau pi :=
  let hash := (splitKey contentHash).2
  let handles := m.dependents.getD hash ∅
  { m with
    dependents := m.dependents.erase hash
    covers := m.covers.filter (fun handle _ => handle ∉ handles)
    prefixCache := m.prefixCache.forget handles }

def stamp (m : MemoryService sigma tau pi) (f : Fragment) : Fragment :=
  match m.compat with
  | none => f
  | some compat => if f.fingerprintCompat = "" then f.withFingerprint compat.property else f

def visible (m : MemoryService sigma tau pi) (caller : Caller) (f : Fragment) : Bool :=
  (ownCopy m.node f caller).isSome

def putSimulated [ContentStore sigma] (m : MemoryService sigma tau pi) (f : Fragment)
    (n : Node sigma tau pi) : Except ServiceError (Node sigma tau pi) :=
  match f.payloadRef, m.backend with
  | some ref, some backend =>
    if ContentStore.has n.contentStore ref then .ok n
    else
      match backend.simulatedPayload f with
      | .error message => .error (ServiceError.raised message)
      | .ok none => .ok n
      | .ok (some payload) =>
        match ContentStore.put n.contentStore ref payload with
        | .error message => .error (ServiceError.raised message)
        | .ok contentStore => .ok { n with contentStore := contentStore }
  | _, _ => .ok n

variable [InventoryHash] [ContentStore sigma] [LowerTier tau] [EvictionPolicy pi]

/-- A prefilled fragment becomes the caller's and is stored.  The state counts the
readings of the clock. -/
def storePrefilled (m : MemoryService sigma tau pi) (caller : Caller) (clock : Nat -> ℚ)
    (s : Node sigma tau pi × Nat) (f : Fragment) :
    Except ServiceError Unit × (Node sigma tau pi × Nat) :=
  match (if caller.tenant = "" then .ok f else f.withTenant caller.tenant) with
  | .error message => (.error (ServiceError.raised message), s)
  | .ok owned =>
    let stamped := m.stamp owned
    match m.putSimulated stamped s.1 with
    | .error e => (.error e, s)
    | .ok n =>
      match n.store stamped true caller (clock s.2) (clock (s.2 + 1)) with
      | (.error e, stored) =>
        (.error (ServiceError.node e), (stored, s.2 + 2))
      | (.ok _, stored) => (.ok (), (stored, s.2 + 2))

def reconstructor (m : MemoryService sigma tau pi) (caller : Caller) (prefill : Bool)
    (clock : Nat -> ℚ) : Reconstructor (Node sigma tau pi × Nat) ServiceError :=
  { indexSystem := m.node.indexSystem
    prefill :=
      match prefill, m.backend with
      | true, some backend => fun tokens modelId =>
        match backend.prefill tokens modelId with
        | .error message => .error (ServiceError.raised message)
        | .ok fragments => .ok fragments
      | _, _ => fun _ _ => .ok []
    config :=
      { ReconstructorConfig.default with
        maxGapTokens := if prefill then 0 else 2 ^ 30
        indexPrefilled := false }
    visible := some (m.visible caller)
    onPrefilled := if prefill then some (m.storePrefilled caller clock) else none }

variable [TokenHash]

def rebuild (m : MemoryService sigma tau pi) (tokens : List Int) (modelId : String)
    (caller : Caller) (prefill : Bool) (clock : Nat -> ℚ) :
    Filling (Node sigma tau pi × Nat) ServiceError :=
  (m.reconstructor caller prefill clock).rebuildContext tokens modelId (m.node, 0)

/-- Drop the bookkeeping of entries that the prefix cache evicted on its own. -/
def forgetEvicted (m : MemoryService sigma tau pi) : MemoryService sigma tau pi :=
  { m with
    covers := m.covers.filter (fun handle _ => handle ∈ m.prefixCache.byHandle.keys)
    dependents := (m.dependents.mapValues (fun handles =>
      handles.filter (fun handle => handle ∈ m.prefixCache.byHandle.keys))).filter
        (fun _ handles => handles ≠ ∅) }

def remember (m : MemoryService sigma tau pi) (handle : KVHandle) (hashes : List String) :
    MemoryService sigma tau pi :=
  let noted : MemoryService sigma tau pi :=
    { m with
      covers := m.covers.set handle.handle hashes
      dependents := hashes.foldl (fun dependents h =>
        dependents.set h (insert handle.handle (dependents.getD h ∅))) m.dependents }
  if 2 * max 1 m.prefixCache.capacity < noted.covers.size then noted.forgetEvicted else noted

variable [PrefixDigest]

def lookupUncached (m : MemoryService sigma tau pi) (tokens : List Int) (modelId : String)
    (caller : Caller) (mintedAt now : ℚ) :
    Except ServiceError LookupAnswer × MemoryService sigma tau pi :=
  match (m.rebuild tokens modelId caller false (fun _ => now)).result with
  | .error e => (.error e, m)
  | .ok result =>
    let walked := walkPrefix 0 result.fragments
    let answer := lookupAnswer walked.1 tokens.length walked.2 false
    if walked.1 = 0 then (.ok answer, m)
    else
      let inserted := m.prefixCache.insert (cacheKey caller.tenant modelId)
        (tokens.take walked.1.toNat) (0, 0) mintedAt now
      (.ok answer,
        { m with prefixCache := inserted.2 }.remember inserted.1 walked.2)

/-- A remembered match counts as long as every hash it rests on can be located. -/
def prefixLookup (m : MemoryService sigma tau pi) (tokens : List Int) (modelId : String)
    (caller : Caller) (lookedUpAt mintedAt now : ℚ) :
    Except ServiceError LookupAnswer × MemoryService sigma tau pi :=
  let looked := m.prefixCache.lookup (cacheKey caller.tenant modelId) tokens lookedUpAt
  let m := { m with prefixCache := looked.2 }
  match looked.1.handle with
  | none => m.lookupUncached tokens modelId caller mintedAt now
  | some handle =>
    let hashes := m.covers.getD handle.handle []
    if hashes ≠ [] ∧ hashes.all (fun h => (m.node.locate h caller).isSome) then
      (.ok (lookupAnswer looked.1.tokenLen tokens.length hashes true), m)
    else m.lookupUncached tokens modelId caller mintedAt now

end MemoryService

end Services
end Membrane
