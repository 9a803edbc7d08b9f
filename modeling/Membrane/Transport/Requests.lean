import Membrane.Transport.Ops

/-!
# Requests to a server

The calls on a node and the operations of the transport, as one sequence of
requests.  Every request keeps the invariant of the node, and leaves a node
without a lower tier without one.
-/

namespace Membrane
namespace Transport

open Foundation Data Store Serving

inductive Request where
  | call (c : Call)
  | opStore (f : Fragment) (ctx : StoreContext) (now evictTime : ℚ)
  | opReplicate (f : Fragment) (isPrimary : Bool) (caller : Caller) (now evictTime : ℚ)
  | opPutBlob (payloadRef : String) (data : Bytes) (claimedSha256 : String)

variable {sigma tau pi : Type} [InventoryHash] [ContentStore sigma]
variable {n : Node sigma tau pi}

structure Tierless (n : Node sigma tau pi) : Prop extends Node.Invariant n where
  tierless : n.lowerTier = none

theorem Tierless.evicts {n' : Node sigma tau pi} {victims : List (String × Fragment)}
    (hn : Tierless n) (h : Node.Evicts n victims n') : Tierless n' :=
  ⟨h.invariant hn.toInvariant, h.frame.lowerTier hn.tierless⟩

theorem Tierless.removeFragment (hn : Tierless n) (k : String) :
    Tierless (Node.after (n.removeFragment k)) := by
  rcases Node.after_removeFragment_evicts hn.toConsistent k with ⟨_, hevicts⟩
  exact hn.evicts hevicts

variable [LowerTier tau] [EvictionPolicy pi]

theorem Tierless.store (hn : Tierless n) (f : Fragment) (isPrimary : Bool)
    (caller : Caller) (now evictTime : ℚ) :
    Tierless (n.store f isPrimary caller now evictTime).2 :=
  ⟨Node.store_invariant hn.toInvariant, Node.store_lowerTier hn.toInvariant hn.tierless⟩

theorem Tierless.call (hn : Tierless n) (c : Call) : Tierless (n.call c) := by
  cases c with
  | retrieve thread k caller ownTimes times otherTimes =>
    rcases Node.retrieve_evicts hn.toConsistent hn.tierless thread k caller ownTimes times
      otherTimes with ⟨_, hevicts⟩
    exact hn.evicts hevicts
  | mutation m =>
    rcases Node.mutate_cases hn.toConsistent m with
      ⟨f, isPrimary, caller, now, evictTime, rfl⟩ | ⟨_, hevicts⟩
    · exact hn.store f isPrimary caller now evictTime
    · exact hn.evicts hevicts

/-!
# What every request preserves
-/

section

variable (holds : Node sigma tau pi -> Prop)
  (hstore : forall m f isPrimary caller now evictTime, holds m ->
    holds (m.store f isPrimary caller now evictTime).2)

include holds hstore

theorem opStore_preserves
    (hremove : forall m k, holds m -> holds (Node.after (m.removeFragment k)))
    (hn : holds n) (f : Fragment) (ctx : StoreContext) (now evictTime : ℚ) :
    holds (opStore n f ctx now evictTime).2 := by
  classical
  cases hreject : rejection n (ctx.effective f) ctx with
  | some response =>
    rw [opStore_of_rejected n f ctx now evictTime hreject]
    exact hn
  | none =>
    have hstored := hstore n (ctx.effective f) ctx.isPrimary ctx.caller now evictTime hn
    rw [opStore_of_not_rejected n f ctx now evictTime hreject, opStoreAccepted_node]
    split_ifs
    · exact hremove _ _ hstored
    · exact hstored

theorem opReplicate_preserves (hn : holds n) (f : Fragment) (isPrimary : Bool) (caller : Caller)
    (now evictTime : ℚ) : holds (opReplicate n f isPrimary caller now evictTime).2 := by
  unfold opReplicate
  split
  · exact hn
  · exact hstore n f isPrimary caller now evictTime hn

end

variable [PayloadDigest]

def handle (n : Node sigma tau pi) : Request -> Node sigma tau pi
  | .call c => n.call c
  | .opStore f ctx now evictTime => (opStore n f ctx now evictTime).2
  | .opReplicate f isPrimary caller now evictTime =>
    (opReplicate n f isPrimary caller now evictTime).2
  | .opPutBlob payloadRef data claimedSha256 =>
    (opPutBlob n payloadRef data claimedSha256).2

theorem handle_preserves (holds : Node sigma tau pi -> Prop)
    (hstore : forall m f isPrimary caller now evictTime, holds m ->
      holds (m.store f isPrimary caller now evictTime).2)
    (hremove : forall m k, holds m -> holds (Node.after (m.removeFragment k)))
    (hcall : forall m c, holds m -> holds (m.call c))
    (hbytes : forall (m : Node sigma tau pi) contentStore, holds m ->
      holds { m with contentStore := contentStore })
    (hn : holds n) (request : Request) : holds (handle n request) := by
  cases request with
  | call c => exact hcall n c hn
  | opStore f ctx now evictTime =>
    exact opStore_preserves holds hstore hremove hn f ctx now evictTime
  | opReplicate f isPrimary caller now evictTime =>
    exact opReplicate_preserves holds hstore hn f isPrimary caller now evictTime
  | opPutBlob payloadRef data claimedSha256 =>
    show holds (opPutBlob n payloadRef data claimedSha256).2
    rw [opPutBlob_eq]
    exact hbytes n _ hn

theorem handle_tierless (hn : Tierless n) (request : Request) :
    Tierless (handle n request) :=
  handle_preserves Tierless
    (fun _ f isPrimary caller now evictTime hm =>
      hm.store f isPrimary caller now evictTime)
    (fun _ k hm => hm.removeFragment k) (fun _ c hm => hm.call c)
    (fun _ _ hm => ⟨⟨⟨hm.bookkeeping, hm.tracked⟩, hm.capacity⟩, hm.tierless⟩) hn request

/-!
# Copying a fragment to a peer

A fragment is copied in two requests: its bytes, then its metadata.  The client
reads a field of each answer and takes an error for no answer, in which case it
may send the request again or give up.
-/

def Response.flag (r : Response) (field : String) : Bool :=
  r.body.lookup field == some (.bool true)

/-- What the client makes of an answer: failures and error statuses count as no
answer. -/
def readAnswer : Except NodeError Response -> Option Response
  | .ok response => if response.status < 400 then some response else none
  | .error _ => none

def accepts (answer : Except NodeError Response) (field : String) : Bool :=
  (readAnswer answer).any (fun response => response.flag field)

end Transport
end Membrane
