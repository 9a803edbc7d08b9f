import Membrane.Serving.Runs

/-!
# Operations of the transport

The logic behind the endpoints that write to a node: storing a fragment with a
consistency level, taking a fragment from a peer, and taking payload bytes.  An
operation returns a status and a body and leaves the node in a new state.

The fragment is the one parsed from the request.  The attempt to reach a quorum
is a parameter: it may succeed, fall short or raise.
-/

namespace Membrane
namespace Transport

open Foundation Data Store Serving

inductive Value where
  | bool (b : Bool)
  | int (i : Int)
  | text (s : String)
  | scope (e : TenantScopeError)
  deriving DecidableEq

structure Response where
  status : Nat
  body : List (String × Value)
  deriving DecidableEq

def Response.hasRetryAfter (r : Response) : Bool :=
  r.body.any (fun field => field.1 = "Retry-After")

def okResponse (body : List (String × Value)) : Response :=
  { status := 200, body := body }

/-!
# The cluster as an operation sees it
-/

structure Cluster where
  nodeId : String
  peers : Dict String Bool
  clients : Finset String
  defaultConsistency : Consistency
  quorumCount : Int
  replicaCount : Int
  quorumTimeoutSec : ℚ

namespace Cluster

variable (c : Cluster)

def healthy : List String :=
  (c.peers.entries.filter (fun entry => entry.2)).map Prod.fst

def selectReplicaPeers (count : Int) : List String :=
  ((c.healthy.filter (fun id => id ≠ c.nodeId)).take count.toNat).filter
    (fun id => id ∈ c.clients)

def requiredPeerAcks : Int := c.quorumCount - 1

def fanOut : Int := max c.requiredPeerAcks c.replicaCount

def replicaPeers : List String := c.selectReplicaPeers c.fanOut

end Cluster

structure QuorumRequest where
  fragment : Fragment
  peers : List String
  requiredAcks : Int
  timeoutSec : ℚ
  blob : Option Bytes

inductive QuorumOutcome where
  | raised (message : String)
  | result (ackCount : Int) (timedOut success : Bool)
  deriving DecidableEq

/-- A refusal by the store guard; the status defaults to a conflict. -/
structure StoreRefused where
  status : Option Nat
  detail : String

structure StoreContext where
  isPrimary : Bool
  caller : Caller
  draining : Bool
  cluster : Option Cluster
  quorumAttempt : Option (QuorumRequest -> QuorumOutcome)
  storeGuard : Option (Fragment -> Except StoreRefused Unit)

namespace StoreContext

variable (ctx : StoreContext)

def effective (f : Fragment) : Fragment :=
  match ctx.cluster with
  | none => f
  | some cluster =>
    if f.consistency = .strong ∧ cluster.defaultConsistency ≠ .strong then
      f.withConsistency cluster.defaultConsistency
    else f

inductive Verdict where
  | acknowledged
  | unreachable (required : Int)
  | raised (message : String)
  | failed (ackCount required : Int) (timedOut : Bool)
  deriving DecidableEq

def attemptVerdict (cluster : Cluster) : QuorumOutcome -> Verdict
  | .raised message => .raised message
  | .result ackCount timedOut success =>
    if success then .acknowledged else .failed ackCount cluster.quorumCount timedOut

@[simp] theorem effective_key (f : Fragment) : (ctx.effective f).key = f.key := by
  unfold effective
  split
  · rfl
  · split_ifs <;> rfl

@[simp] theorem effective_payloadRef (f : Fragment) :
    (ctx.effective f).payloadRef = f.payloadRef := by
  unfold effective
  split
  · rfl
  · split_ifs <;> rfl

/-- The verdict on a fragment that was stored locally, given the bytes the node
holds for it. -/
def verdict (f : Fragment) (blob : Option Bytes) : Verdict :=
  if f.consistency = .eventual then .acknowledged
  else
    match ctx.quorumAttempt, ctx.cluster with
    | some attempt, some cluster =>
      if cluster.requiredPeerAcks ≤ 0 then .acknowledged
      else if (cluster.replicaPeers.length : Int) < cluster.requiredPeerAcks then
        .unreachable cluster.quorumCount
      else
        attemptVerdict cluster (attempt
          { fragment := f
            peers := cluster.replicaPeers
            requiredAcks := cluster.requiredPeerAcks
            timeoutSec := cluster.quorumTimeoutSec
            blob := blob })
    | _, _ => .acknowledged

def Verdict.rollsBack : Verdict -> Bool
  | .acknowledged => false
  | .unreachable _ => true
  | .raised _ => false
  | .failed _ _ _ => true

def Verdict.response (f : Fragment) : Verdict -> Response
  | .acknowledged =>
    okResponse [("success", .bool true), ("content_hash", .text f.payloadHash)]
  | .unreachable required =>
    { status := 503
      body := [("error", .text "quorum not met"),
        ("detail", .text "not enough healthy peers"), ("ack_count", .int 0),
        ("required", .int required), ("Retry-After", .int 1)] }
  | .raised message =>
    { status := 503
      body := [("error", .text "quorum_attempt failed"), ("detail", .text message)] }
  | .failed ackCount required timedOut =>
    { status := 503
      body := [("error", .text (if timedOut then "quorum timeout" else "quorum not met")),
        ("ack_count", .int ackCount), ("required", .int required),
        ("Retry-After", .int 1)] }

end StoreContext

def localAnswer (f : Fragment) : Except NodeError Bool -> Except NodeError Response
  | .error (.tenantScope e) =>
    .ok
      { status := 403, body := [("error", .text "tenant scope"), ("detail", .scope e)] }
  | .error e => .error e
  | .ok success =>
    .ok (okResponse
      [("success", .bool success), ("content_hash", .text f.payloadHash)])

theorem localAnswer_status_ne {f : Fragment} {result : Except NodeError Bool}
    {response : Response} (h : localAnswer f result = .ok response) :
    response.status ≠ 503 := by
  cases result with
  | error e =>
    cases e with
    | tenantScope e =>
      cases h
      show 403 ≠ 503
      decide
    | missingKey k | contentStore m => cases h
  | ok success =>
    cases h
    show 200 ≠ 503
    decide

section Operations

variable {sigma tau pi : Type} [InventoryHash] [ContentStore sigma]

/-!
# Storing
-/

def payloadPresent (n : Node sigma tau pi) (payloadRef : String) : Bool :=
  ContentStore.has n.contentStore payloadRef

def missingPayload (f : Fragment) (payloadRef : String) : Response :=
  { status := 422
    body := [("error", .text "payload_ref not found in content store"),
      ("payload_ref", .text payloadRef), ("content_hash", .text f.payloadHash)] }

def rejection (n : Node sigma tau pi) (f : Fragment) (ctx : StoreContext) :
    Option Response :=
  if ctx.draining then
    some { status := 503
           body := [("error", .text "node draining"), ("Retry-After", .int 1)] }
  else
    match f.payloadRef.filter (fun ref => !payloadPresent n ref) with
    | some ref => some (missingPayload f ref)
    | none =>
      match ctx.storeGuard.map (fun guard => guard f) with
      | some (Except.error refused) =>
        some { status := refused.status.getD 409
               body := [("error", .text "store refused"),
                 ("detail", .text refused.detail)] }
      | _ => none

def rollbackLocalWrite (n : Node sigma tau pi) (contentHash : String)
    (existedBefore : Bool) : Node sigma tau pi :=
  if existedBefore then n else Node.after (n.removeFragment contentHash)

def blobOf (n : Node sigma tau pi) (f : Fragment) : Option Bytes :=
  f.payloadRef.bind (ContentStore.get n.contentStore)

/-- The quorum phase: the verdict on a stored fragment is answered, and the local
write is undone where the verdict says so. -/
def settle (n : Node sigma tau pi) (f : Fragment) (existedBefore : Bool)
    (verdict : StoreContext.Verdict) : Response × Node sigma tau pi :=
  (verdict.response f,
    if verdict.rollsBack then rollbackLocalWrite n f.key existedBefore else n)

variable [LowerTier tau] [EvictionPolicy pi]

def opStoreAccepted (n : Node sigma tau pi) (f : Fragment) (ctx : StoreContext)
    (now evictTime : ℚ) : Except NodeError Response × Node sigma tau pi :=
  match n.store f ctx.isPrimary ctx.caller now evictTime with
  | (.ok true, stored) =>
    let settled := settle stored f (decide (f.key ∈ n.fragments))
      (ctx.verdict f (blobOf stored f))
    (.ok settled.1, settled.2)
  | (result, stored) => (localAnswer f result, stored)

def opStore (n : Node sigma tau pi) (f : Fragment) (ctx : StoreContext)
    (now evictTime : ℚ) : Except NodeError Response × Node sigma tau pi :=
  match rejection n (ctx.effective f) ctx with
  | some response => (.ok response, n)
  | none => opStoreAccepted n (ctx.effective f) ctx now evictTime

/-!
# Replicating
-/

def opReplicate (n : Node sigma tau pi) (f : Fragment) (isPrimary : Bool)
    (caller : Caller) (now evictTime : ℚ) :
    Except NodeError Response × Node sigma tau pi :=
  match f.payloadRef.filter (fun ref => !payloadPresent n ref) with
  | some ref =>
    (.ok
      { status := 422
        body := [("error", .text "payload missing"),
          ("detail", .text ("PUT /blobs/" ++ ref ++ " before replicating its fragment")),
          ("content_hash", .text f.payloadHash)] }, n)
  | none =>
    let written := n.store f isPrimary caller now evictTime
    (localAnswer f written.1, written.2)

end Operations

/-!
# What an accepted store does to the node
-/

section Specifications

variable {sigma tau pi : Type} [InventoryHash] [ContentStore sigma]
variable [LowerTier tau] [EvictionPolicy pi]
variable (n : Node sigma tau pi) (f : Fragment) (ctx : StoreContext) (now evictTime : ℚ)

def storedNode : Node sigma tau pi :=
  (n.store f ctx.isPrimary ctx.caller now evictTime).2

def storeVerdict : StoreContext.Verdict :=
  ctx.verdict f (blobOf (storedNode n f ctx now evictTime) f)

def RollsBack : Prop :=
  (n.store f ctx.isPrimary ctx.caller now evictTime).1 = .ok true ∧
    (storeVerdict n f ctx now evictTime).rollsBack = true ∧ ¬ f.key ∈ n.fragments

theorem opStore_of_rejected {response : Response}
    (h : rejection n (ctx.effective f) ctx = some response) :
    opStore n f ctx now evictTime = (.ok response, n) := by
  unfold opStore
  rw [h]

theorem opStore_of_not_rejected (h : rejection n (ctx.effective f) ctx = none) :
    opStore n f ctx now evictTime =
      opStoreAccepted n (ctx.effective f) ctx now evictTime := by
  unfold opStore
  rw [h]

theorem opStoreAccepted_of_stored
    (h : (n.store f ctx.isPrimary ctx.caller now evictTime).1 = .ok true) :
    opStoreAccepted n f ctx now evictTime =
      (.ok ((storeVerdict n f ctx now evictTime).response f),
        (settle (storedNode n f ctx now evictTime) f (decide (f.key ∈ n.fragments))
          (storeVerdict n f ctx now evictTime)).2) := by
  unfold opStoreAccepted storeVerdict storedNode
  rcases hstore : n.store f ctx.isPrimary ctx.caller now evictTime with ⟨result, stored⟩
  rw [hstore] at h
  subst h
  rfl

theorem opStoreAccepted_of_not_stored
    (h : (n.store f ctx.isPrimary ctx.caller now evictTime).1 ≠ Except.ok true) :
    opStoreAccepted n f ctx now evictTime =
      (localAnswer f (n.store f ctx.isPrimary ctx.caller now evictTime).1,
        storedNode n f ctx now evictTime) := by
  unfold opStoreAccepted storedNode
  rcases hstore : n.store f ctx.isPrimary ctx.caller now evictTime with ⟨result, stored⟩
  rw [hstore] at h
  cases result with
  | error e => rfl
  | ok success =>
    cases success with
    | true => exact absurd rfl h
    | false => rfl

theorem opStoreAccepted_node [Decidable (RollsBack n f ctx now evictTime)] :
    (opStoreAccepted n f ctx now evictTime).2 =
      if RollsBack n f ctx now evictTime then
        Node.after
          ((storedNode n f ctx now evictTime).removeFragment f.key)
      else storedNode n f ctx now evictTime := by
  by_cases hstored :
      (n.store f ctx.isPrimary ctx.caller now evictTime).1 = Except.ok true
  · rw [opStoreAccepted_of_stored n f ctx now evictTime hstored]
    unfold settle rollbackLocalWrite RollsBack
    by_cases hrolls : (storeVerdict n f ctx now evictTime).rollsBack = true
    · by_cases hk : f.key ∈ n.fragments
      · simp [hrolls, hk]
      · simp [hrolls, hk, hstored]
    · simp [hrolls]
  · rw [opStoreAccepted_of_not_stored n f ctx now evictTime hstored, if_neg]
    exact fun h => hstored h.left

end Specifications

/-!
# Payload bytes
-/

class PayloadDigest where
  sha256Hex : Bytes -> String

@[reducible] def PayloadDigest.constant : PayloadDigest where
  sha256Hex _ := ""

def hexDigits : List Char := "0123456789abcdef".toList

/-- A digest in 64 hexadecimal digits. -/
@[reducible] def PayloadDigest.checksum : PayloadDigest where
  sha256Hex data := String.ofList (List.replicate 63 '0' ++
    [hexDigits.getD ((data.map UInt8.toNat).sum % 16) '0'])

def payloadRefChars : List Char :=
  "ABCDEFGHIJKLMNOPQRSTUVWXYZabcdefghijklmnopqrstuvwxyz0123456789._:-".toList

def validPayloadRef (payloadRef : String) : Bool :=
  decide (1 ≤ payloadRef.length ∧ payloadRef.length ≤ 256) &&
    payloadRef.toList.all (fun ch => ch ∈ payloadRefChars) &&
    decide (payloadRef ≠ "." ∧ payloadRef ≠ "..")

section Blobs

variable {sigma tau pi : Type} [ContentStore sigma] [PayloadDigest]

/-- Bytes that are already held under the key are left as they are. -/
def opPutBlob (n : Node sigma tau pi) (payloadRef : String) (data : Bytes)
    (claimedSha256 : String) : Except NodeError Response × Node sigma tau pi :=
  if validPayloadRef payloadRef = false then
    (Except.ok { status := 400, body := [("error", .text "invalid payload_ref")] }, n)
  else if claimedSha256.toLower ≠ PayloadDigest.sha256Hex data then
    (Except.ok
      { status := 400
        body := [("error", .text "digest mismatch"),
          ("detail", .text "X-Content-SHA256 does not match the body")] }, n)
  else if ContentStore.has n.contentStore payloadRef then
    (Except.ok { status := 200
                 body := [("stored", .bool true), ("existing", .bool true),
                   ("bytes", .int data.length)] }, n)
  else
    match ContentStore.put n.contentStore payloadRef data with
    | Except.error message => (Except.error (.contentStore message), n)
    | Except.ok contentStore =>
      (Except.ok { status := 200
                   body := [("stored", .bool true), ("existing", .bool false),
                     ("bytes", .int data.length)] },
        { n with contentStore := contentStore })

theorem opPutBlob_eq (n : Node sigma tau pi) (payloadRef : String)
    (data : Bytes) (claimedSha256 : String) :
    (opPutBlob n payloadRef data claimedSha256).2 =
      { n with
        contentStore := (opPutBlob n payloadRef data claimedSha256).2.contentStore } := by
  unfold opPutBlob
  split_ifs
  · rfl
  · rfl
  · rfl
  · split
    · rfl
    · rfl

end Blobs

end Transport
end Membrane
