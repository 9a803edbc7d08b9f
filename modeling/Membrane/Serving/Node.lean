import Membrane.Index.Index
import Membrane.Store.ContentStore
import Membrane.Store.Policies
import Membrane.Store.Table

/-!
# The node

A node composes the fragment table with an index, a graph, a content store and
its policies.  It is generic in the content store, in the lower tier that takes
what capacity evictions remove, and in the eviction policy.  The readings of the
clock that a call makes are arguments of the call.
-/

namespace Membrane
namespace Serving

open Foundation Data Store Index

/-- The tier below a node: it takes fragments that are evicted for space and
gives them back on a later read. -/
class LowerTier (tau : Type) where
  promote : tau -> String -> Option (Fragment × Option Bytes) × tau
  demoteLater : tau -> Fragment -> Option Bytes -> tau

/-- A node without a lower tier has an empty type of tiers. -/
instance : LowerTier Empty where
  promote tier _ := nomatch tier
  demoteLater tier _ _ := nomatch tier

inductive NodeError where
  | tenantScope (error : TenantScopeError)
  | missingKey (contentHash : String)
  | contentStore (message : String)
  deriving DecidableEq

inductive EvictionReason where
  | capacity
  | expired
  deriving DecidableEq

/-- The calls a node makes to its persistence hooks and eviction callbacks.
Their failures are logged and never reach the node. -/
inductive NodeEvent where
  | stored (fragment : Fragment) (isPrimary : Bool)
  | removed (contentHash : String)
  | evicted (reason : EvictionReason) (fragments : List Fragment)
  deriving DecidableEq

structure Node (sigma tau pi : Type) where
  nodeId : String
  maxMemoryBytes : Nat
  indexSystem : IndexSystem
  graph : Graph
  contentStore : sigma
  admissionPolicy : Option AdmissionPolicy
  quotas : Dict String TenantQuota
  tierPolicy : Option TierPolicy
  evictionPolicy : pi
  table : FragmentTable
  lowerTier : Option tau
  selectedTiers : Dict String Tier
  journal : List NodeEvent

structure Config (sigma tau pi : Type) where
  nodeId : String
  maxMemoryBytes : Nat
  indexSystem : IndexSystem
  graph : Graph
  contentStore : sigma
  admissionPolicy : Option AdmissionPolicy
  quotas : Dict String TenantQuota
  tierPolicy : Option TierPolicy
  evictionPolicy : pi
  lowerTier : Option tau

def Config.default (nodeId : String) (maxMemoryBytes : Nat) :
    Config InProcessBytes Empty WeightedLRU where
  nodeId := nodeId
  maxMemoryBytes := maxMemoryBytes
  indexSystem := IndexSystem.create
  graph := Graph.create
  contentStore := InProcessBytes.create none
  admissionPolicy := none
  quotas := Dict.empty
  tierPolicy := none
  evictionPolicy := WeightedLRU.mk
  lowerTier := none

namespace Node

variable {sigma tau pi : Type}

def create (config : Config sigma tau pi) : Node sigma tau pi :=
  { nodeId := config.nodeId
    maxMemoryBytes := config.maxMemoryBytes
    indexSystem := config.indexSystem
    graph := config.graph
    contentStore := config.contentStore
    admissionPolicy := config.admissionPolicy
    quotas := config.quotas
    tierPolicy := config.tierPolicy
    evictionPolicy := config.evictionPolicy
    table := FragmentTable.create
    lowerTier := config.lowerTier
    selectedTiers := Dict.empty
    journal := [] }

variable (n : Node sigma tau pi)

def fragments : Dict String Fragment := n.table.fragments

def notify (event : NodeEvent) : Node sigma tau pi :=
  { n with journal := n.journal ++ [event] }

def fireEvictionCallbacks (evicted : List Fragment) (reason : EvictionReason) :
    Node sigma tau pi :=
  { n with
    journal := if evicted = [] then n.journal
      else n.journal ++ [NodeEvent.evicted reason evicted] }

/-!
# Removal

A removed fragment takes its payload with it, unless another resident fragment
still refers to the payload.  When the content store cannot address the payload,
the removal raises after the fragment has left the table.
-/

/-- An operation that raises leaves the changes it has made so far. -/
structure Raised (sigma tau pi : Type) where
  error : NodeError
  node : Node sigma tau pi

def after {alpha : Type} :
    Except (Raised sigma tau pi) (alpha × Node sigma tau pi) -> Node sigma tau pi
  | .error raised => raised.node
  | .ok result => result.2

def unlessFault {alpha : Type} (fault : Option String) (result : alpha) :
    Except (Raised sigma tau pi) alpha :=
  match fault with
  | none => .ok result
  | some message => .error { error := NodeError.contentStore message, node := n }

variable [PayloadStore sigma]

def payloadFault (sigma : Type) [PayloadStore sigma] (f : Fragment) : Option String :=
  f.payloadRef.bind (PayloadStore.fault sigma)

def orphan (f : Fragment) : Option String :=
  f.payloadRef.filter (fun ref => n.table.references ref = 0)

def withoutPayload (f : Fragment) : Node sigma tau pi :=
  { n with
    contentStore :=
      match n.orphan f with
      | none => n.contentStore
      | some ref => (PayloadStore.delete n.contentStore ref).2 }

def dropPayload (f : Fragment) : Except (Raised sigma tau pi) (Node sigma tau pi) :=
  n.unlessFault ((n.orphan f).bind (PayloadStore.fault sigma)) (n.withoutPayload f)

def popped (contentHash : String) (table : FragmentTable) : Node sigma tau pi :=
  ({ n with table := table } : Node sigma tau pi).notify (NodeEvent.removed contentHash)

def removeFragment [InventoryHash] (contentHash : String) :
    Except (Raised sigma tau pi) (Fragment × Node sigma tau pi) :=
  match n.table.pop contentHash with
  | none => .error { error := NodeError.missingKey contentHash, node := n }
  | some (f, table) =>
    ((n.popped contentHash table).dropPayload f).map (fun removed => (f, removed))

/-!
# Eviction

Eviction frees bytes in three stages: expired fragments, then fragments in the
order of the policy, then graph neighbours of what was evicted.  Fragments
evicted for space are first handed to the lower tier.
-/

variable [LowerTier tau] [EvictionPolicy pi] [InventoryHash]

def demoted (contentHash : String) : Node sigma tau pi :=
  { n with
    lowerTier := n.lowerTier.map (fun tier =>
      match n.table.fragments.get? contentHash with
      | none => tier
      | some f =>
        LowerTier.demoteLater tier f
          (f.payloadRef.bind (PayloadStore.get n.contentStore))) }

/-- A demotion reads the payload before it hands the fragment over. -/
def demote (contentHash : String) : Except (Raised sigma tau pi) (Node sigma tau pi) :=
  n.unlessFault
    (if n.lowerTier.isSome then
      (n.table.fragments.get? contentHash).bind (payloadFault sigma) else none)
    (n.demoted contentHash)

def evictKey (demoting : Bool) (contentHash : String) :
    Except (Raised sigma tau pi) (Fragment × Node sigma tau pi) :=
  if demoting then
    (n.demote contentHash).bind (fun demoted => demoted.removeFragment contentHash)
  else n.removeFragment contentHash

structure Evicted (sigma tau pi : Type) where
  victims : List (String × Fragment)
  freed : Int
  node : Node sigma tau pi

def evictKeys (demoting skipAbsent : Bool) (targetBytes : Int) :
    List String -> Int -> Node sigma tau pi ->
      Except (Raised sigma tau pi) (Evicted sigma tau pi)
  | [], freed, n => .ok { victims := [], freed := freed, node := n }
  | h :: rest, freed, n =>
    if skipAbsent = true ∧ ¬ h ∈ n.fragments then
      evictKeys demoting skipAbsent targetBytes rest freed n
    else if targetBytes ≤ freed then
      .ok { victims := [], freed := freed, node := n }
    else
      match n.evictKey demoting h with
      | .error e => .error e
      | .ok (f, next) =>
        match evictKeys demoting skipAbsent targetBytes rest
          (freed + f.payloadSize) next with
        | .error e => .error e
        | .ok tail =>
          .ok { tail with victims := (h, f) :: tail.victims }

def evictExpired (targetBytes : Int) (now : ℚ) :
    Except (Raised sigma tau pi) (Evicted sigma tau pi) :=
  evictKeys false false targetBytes (n.table.expired now) 0 n

/-- Reading the access times merges the reads of every thread first. -/
def mergeReads : Node sigma tau pi :=
  { n with table := n.table.recency }

def evictLru (targetBytes : Int) (now : ℚ) (alreadyEvicted : List String) :
    Except (Raised sigma tau pi) (Evicted sigma tau pi) :=
  let candidates := n.fragments.entries.filter (fun entry => entry.1 ∉ alreadyEvicted)
  let order := EvictionPolicy.order n.evictionPolicy candidates
    n.mergeReads.table.accessTimes now
  evictKeys true false targetBytes order 0 n.mergeReads

def evictSeeds (targetBytes : Int) :
    List String -> Int -> Node sigma tau pi ->
      Except (Raised sigma tau pi) (Evicted sigma tau pi)
  | [], freed, n => .ok { victims := [], freed := freed, node := n }
  | h :: rest, freed, n =>
    if targetBytes ≤ freed then
      .ok { victims := [], freed := freed, node := n }
    else
      match evictKeys true true targetBytes (n.graph.evictionNeighbors h) freed n with
      | .error e => .error e
      | .ok first =>
        match evictSeeds targetBytes rest first.freed first.node with
        | .error e => .error e
        | .ok tail =>
          .ok { tail with victims := first.victims ++ tail.victims }

def evictGraphNeighbors (targetBytes : Int) (seedHashes : List String) :
    Except (Raised sigma tau pi) (Evicted sigma tau pi) :=
  evictSeeds targetBytes seedHashes 0 n

def finishEviction (victims : List (String × Fragment)) (reason : EvictionReason) :
    List String × Node sigma tau pi :=
  (victims.map Prod.fst, n.fireEvictionCallbacks (victims.map Prod.snd) reason)

def evict (targetBytes : Int) (now : ℚ) :
    Except (Raised sigma tau pi) (List String × Node sigma tau pi) :=
  if targetBytes ≤ 0 then .ok ([], n)
  else
    match n.evictExpired targetBytes now with
    | .error e => .error e
    | .ok first =>
      if targetBytes ≤ first.freed then
        .ok (first.node.finishEviction first.victims EvictionReason.capacity)
      else
        match first.node.evictLru (targetBytes - first.freed) now
          (first.victims.map Prod.fst) with
        | .error e => .error e
        | .ok second =>
          let victims := first.victims ++ second.victims
          let freed := first.freed + second.freed
          if targetBytes ≤ freed then
            .ok (second.node.finishEviction victims EvictionReason.capacity)
          else
            match second.node.evictGraphNeighbors (targetBytes - freed)
              (victims.map Prod.fst) with
            | .error e => .error e
            | .ok third =>
              .ok (third.node.finishEviction (victims ++ third.victims)
                EvictionReason.capacity)

def sweepExpired (now : ℚ) :
    Except (Raised sigma tau pi) (List String × Node sigma tau pi) :=
  match n.evictExpired (n.table.memoryUsage + 1) now with
  | .error e => .error e
  | .ok first =>
    .ok (first.node.finishEviction first.victims EvictionReason.expired)

/-!
# Storing

The tenant check, the admission gate, the quota and the tier come first, then
the size limit.  Only then is the lock taken: a resident key is refreshed, and
a new fragment is inserted after room was made for it.
-/

def chargeQuota (f : Fragment) : Bool × Node sigma tau pi :=
  match n.quotas.get? f.tenantId with
  | none => (true, n)
  | some quota =>
    if (quota.admitPayload f.payloadSize).1 then
      (true, { n with
        quotas := n.quotas.set f.tenantId (quota.admitPayload f.payloadSize).2 })
    else (false, n)

def recordTier (f : Fragment) : Node sigma tau pi :=
  { n with
    selectedTiers :=
      match n.tierPolicy with
      | none => n.selectedTiers
      | some policy => n.selectedTiers.set f.key (selectTier policy f) }

def addFragment (f : Fragment) (now : ℚ) : Node sigma tau pi :=
  { n with
    table := n.table.add f now
    indexSystem := n.indexSystem.insert f {n.nodeId}
    graph := n.graph.addNode f }

def touch (contentHash : String) (now : ℚ) (isPrimary : Bool) : Node sigma tau pi :=
  { n with table := n.table.touch contentHash now isPrimary }

def inserted (f : Fragment) (isPrimary : Bool) (now : ℚ) : Node sigma tau pi :=
  ((n.addFragment f now).notify (NodeEvent.stored f isPrimary)).touch f.key now isPrimary

/-- The presence of the payload is asked for, to log a warning, when the fragment is in
the table already. -/
def insertFragment (f : Fragment) (isPrimary : Bool) (now : ℚ) :
    Except NodeError Bool × Node sigma tau pi :=
  match payloadFault sigma f with
  | some message => (.error (NodeError.contentStore message), n.addFragment f now)
  | none => (.ok true, n.inserted f isPrimary now)

/-- The part of a store that runs under the lock.  The eviction that makes room
reads the clock again. -/
def storeLocked (f : Fragment) (isPrimary : Bool) (now evictTime : ℚ) :
    Except NodeError Bool × Node sigma tau pi :=
  if f.key ∈ n.fragments then (.ok true, n.touch f.key now isPrimary)
  else if (n.maxMemoryBytes : Int) < n.table.memoryUsage + f.payloadSize then
    match n.evict f.payloadSize evictTime with
    | .error raised => (.error raised.error, raised.node)
    | .ok (_, room) =>
      if (room.maxMemoryBytes : Int) < room.table.memoryUsage + f.payloadSize then
        (.ok false, room)
      else room.insertFragment f isPrimary now
  else n.insertFragment f isPrimary now

def refusedByAdmission (f : Fragment) : Bool :=
  n.admissionPolicy.any (fun policy => !policy.shouldAdmit f.reuseScore)

def store (f : Fragment) (isPrimary : Bool) (caller : Caller) (now evictTime : ℚ) :
    Except NodeError Bool × Node sigma tau pi :=
  match checkWrite f.tenantId caller with
  | .error e => (.error (NodeError.tenantScope e), n)
  | .ok _ =>
    if n.refusedByAdmission f then (.ok false, n)
    else if (n.chargeQuota f).1 = false then (.ok false, (n.chargeQuota f).2)
    else if (n.maxMemoryBytes : Int) < f.payloadSize then
      (.ok false, (n.chargeQuota f).2.recordTier f)
    else ((n.chargeQuota f).2.recordTier f).storeLocked f isPrimary now evictTime

/-!
# Retrieval
-/

structure ReadTimes where
  promoted : ℚ
  evicted : ℚ
  read : ℚ

def putPromoted (f : Fragment) (payload : Option Bytes) :
    Except NodeError (Node sigma tau pi) :=
  match f.payloadRef, payload with
  | some ref, some data =>
    match PayloadStore.put n.contentStore ref data with
    | .error message => .error (NodeError.contentStore message)
    | .ok contentStore => .ok { n with contentStore := contentStore }
  | _, _ => .ok n

def promote (contentHash : String) (times : ReadTimes) :
    Except NodeError Unit × Node sigma tau pi :=
  match n.lowerTier with
  | none => (.ok (), n)
  | some tier =>
    let taken : Node sigma tau pi :=
      { n with lowerTier := some (LowerTier.promote tier contentHash).2 }
    match (LowerTier.promote tier contentHash).1 with
    | none => (.ok (), taken)
    | some (f, payload) =>
      match taken.putPromoted f payload with
      | .error e => (.error e, taken)
      | .ok filled =>
        let stored := filled.store f false Caller.internal times.promoted
          times.evicted
        (stored.1.map (fun _ => ()), stored.2)

def answerRead (contentHash : String) (caller : Caller) (now : ℚ) :
    Option CacheEntry -> Except NodeError (Option Fragment) × Node sigma tau pi
  | none => (.ok none, n)
  | some (f, expires) =>
    if caller.tenant ≠ "" ∧ canRead f.tenantId caller = false then (.ok none, n)
    else if expires < now then
      if n.table.isExpired contentHash now then
        match n.removeFragment contentHash with
        | .error raised => (.error raised.error, raised.node)
        | .ok (_, removed) => (.ok none, removed)
      else (.ok none, n)
    else (.ok (some f), n)

def withLookup (thread : Thread) (contentHash : String) (now : Option ℚ) :
    Node sigma tau pi :=
  { n with table := (n.table.lookup thread contentHash now).2 }

def readKey (thread : Thread) (contentHash : String) (caller : Caller) (now : ℚ) :
    Except NodeError (Option Fragment) × Node sigma tau pi :=
  (n.withLookup thread contentHash (some now)).answerRead contentHash caller now
    (n.table.lookup thread contentHash (some now)).1

def retrieveKey (thread : Thread) (contentHash : String) (caller : Caller)
    (times : ReadTimes) : Except NodeError (Option Fragment) × Node sigma tau pi :=
  if n.lowerTier.isSome ∧ ¬ contentHash ∈ n.fragments then
    match n.promote contentHash times with
    | (.error e, promoted) => (.error e, promoted)
    | (.ok _, promoted) => promoted.readKey thread contentHash caller times.read
  else n.readKey thread contentHash caller times.read

/-- The fallback of a read that found neither the caller's copy nor the default
tenant's. -/
def retrieveOther (thread : Thread) (contentHash : String) (caller : Caller)
    (times : ReadTimes) : Except NodeError (Option Fragment) × Node sigma tau pi :=
  if caller.tenant ≠ "" ∧ hasAdminScope caller.scopes = false then
    (.ok none, n)
  else
    match n.table.anyTenantCopy contentHash with
    | none => (.ok none, n)
    | some other => n.retrieveKey thread other caller times

def retrieveDefault (thread : Thread) (contentHash : String) (caller : Caller)
    (times otherTimes : ReadTimes) :
    Except NodeError (Option Fragment) × Node sigma tau pi :=
  match n.retrieveKey thread contentHash caller times with
  | (.ok none, read) =>
    if contentHash ∈ read.table.tenantKeys then
      read.retrieveOther thread contentHash caller otherTimes
    else (.ok none, read)
  | result => result

def retrieve (thread : Thread) (contentHash : String) (caller : Caller)
    (ownTimes times otherTimes : ReadTimes) :
    Except NodeError (Option Fragment) × Node sigma tau pi :=
  if keySeparator ∈ contentHash.toList then
    n.retrieveKey thread contentHash caller times
  else if caller.tenant ≠ "" ∧ caller.tenant ≠ defaultTenant then
    match n.retrieveKey thread (fragmentKey caller.tenant contentHash) caller ownTimes with
    | (.ok none, read) =>
      read.retrieveDefault thread contentHash caller times otherTimes
    | result => result
  else n.retrieveDefault thread contentHash caller times otherTimes

/-- The resident key that a read would use, without the effects of a read. -/
def locate (contentHash : String) (caller : Caller) : Option String :=
  if keySeparator ∈ contentHash.toList then
    if contentHash ∈ n.fragments then some contentHash else none
  else if caller.tenant ≠ "" ∧ caller.tenant ≠ defaultTenant ∧
      fragmentKey caller.tenant contentHash ∈ n.fragments then
    some (fragmentKey caller.tenant contentHash)
  else if contentHash ∈ n.fragments then some contentHash
  else if caller.tenant ≠ "" ∧ hasAdminScope caller.scopes = false then none
  else n.table.anyTenantCopy contentHash

end Node

end Serving
end Membrane
