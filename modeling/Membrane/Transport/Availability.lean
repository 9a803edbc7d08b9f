import Membrane.Transport.Requests

/-!
# Payload availability

A resident fragment is of use only while the content store holds its payload.
Fragments of several tenants may share a payload, and the eviction that makes
room for a new fragment may remove the last other user of the payload the new
fragment refers to.  This module states exactly which requests keep the payloads
of all resident fragments available.
-/

namespace Membrane
namespace Serving

open Foundation Data Store

namespace Node

variable {sigma tau pi : Type} [ContentStore sigma]

def Available (n : Node sigma tau pi) : Prop :=
  forall ref, Uses n.fragments ref -> ContentStore.has n.contentStore ref = true

def HoldsPayload (n : Node sigma tau pi) (f : Fragment) : Prop :=
  forall ref, f.payloadRef = some ref -> ContentStore.has n.contentStore ref = true

theorem charged_available {n : Node sigma tau pi} (hn : n.Available) (f : Fragment) :
    (n.charged f).Available := by
  intro ref
  rw [charged_fragments, charged_contentStore]
  exact hn ref

variable [InventoryHash] {n n' : Node sigma tau pi} {f : Fragment}
  {victims : List (String × Fragment)}

theorem Evicts.has_iff (h : Evicts n victims n') {ref : String}
    (hhas : ContentStore.has n.contentStore ref = true) :
    ContentStore.has n'.contentStore ref = true <->
      (Uses n.fragments ref -> Uses n'.fragments ref) := by
  rw [ContentStore.has_eq] at hhas ⊢
  constructor
  · intro hafter huses
    by_contra hnone
    rw [h.orphaned ref huses hnone] at hafter
    cases hafter
  · intro huses
    rw [h.kept ref huses]
    exact hhas

theorem Evicts.available (h : Evicts n victims n') (hn : n.Available) : n'.Available := by
  intro ref huses
  exact (h.has_iff (hn ref (h.uses_of_remaining huses))).mpr (fun _ => huses)

theorem Evicts.uses_iff (h : Evicts n victims n') (ref : String) :
    Uses n'.fragments ref <->
      exists k g, ¬ k ∈ victims.map Prod.fst ∧ n.fragments.get? k = some g ∧
        g.payloadRef = some ref := by
  constructor
  · rintro ⟨k, g, hg, href⟩
    exact ⟨k, g, ((h.mem_remaining_iff k).mp (Dict.mem_of_get? hg)).right,
      h.get?_of_remaining hg, href⟩
  · rintro ⟨k, g, hk, hg, href⟩
    exact ⟨k, g, by rw [h.remaining k, if_neg hk]; exact hg, href⟩

/-!
# Inserting a fragment
-/

theorem inserted_available_iff (hnew : ¬ f.key ∈ n.fragments) (hn : n.Available)
    (isPrimary : Bool) (now : ℚ) :
    (n.inserted f isPrimary now).Available <-> n.HoldsPayload f := by
  constructor
  · intro h ref href
    exact h ref ((uses_inserted_iff hnew isPrimary now ref).mpr (Or.inl href))
  · intro h ref huses
    rcases (uses_inserted_iff hnew isPrimary now ref).mp huses with href | hold
    · exact h ref href
    · exact hn ref hold

variable [LowerTier tau] [EvictionPolicy pi]

/-- A store keeps the payload of its new fragment: when the payload is in use,
some user is not among the keys that make room. -/
def KeepsPayload (n : Node sigma tau pi) (f : Fragment) (caller : Caller)
    (evictTime : ℚ) : Prop :=
  n.PassesGates f caller -> f.payloadSize ≤ n.maxMemoryBytes ->
    ¬ f.key ∈ n.fragments -> forall ref, f.payloadRef = some ref ->
      Uses n.fragments ref ->
        exists k g, ¬ k ∈ (n.charged f).plannedVictims f evictTime ∧
          n.fragments.get? k = some g ∧ g.payloadRef = some ref

theorem store_available_iff (hn : n.Invariant) (havailable : n.Available)
    (hpayload : n.HoldsPayload f) (isPrimary : Bool) (caller : Caller) (now evictTime : ℚ) :
    (n.store f isPrimary caller now evictTime).2.Available <->
      n.KeepsPayload f caller evictTime := by
  have hcharged := charged_available havailable f
  unfold KeepsPayload
  rcases store_cases hn f isPrimary caller now evictTime with
    ⟨hgates, _, hsame⟩ | ⟨_, hlarge, hstore⟩ | ⟨_, _, hk, hstore⟩ |
      ⟨hgates, hsize, hk, victims, room, hplan, hevicts, hnew, _, hstore⟩
  · rw [hsame]
    exact ⟨fun _ h => absurd h hgates, fun _ => havailable⟩
  · rw [hstore]
    exact ⟨fun _ _ hsize => by omega, fun _ => hcharged⟩
  · rw [hstore]
    exact ⟨fun _ _ _ hnew => absurd hk hnew, fun _ => hcharged⟩
  · have hroom : forall ref, f.payloadRef = some ref ->
        (ContentStore.has room.contentStore ref = true <->
          (Uses n.fragments ref -> exists k g,
            ¬ k ∈ victims.map Prod.fst ∧ n.fragments.get? k = some g ∧
              g.payloadRef = some ref)) := by
      intro ref href
      have hhas : ContentStore.has (n.charged f).contentStore ref = true := by
        rw [charged_contentStore]
        exact hpayload ref href
      rw [hevicts.has_iff hhas, hevicts.uses_iff ref, charged_fragments]
    rw [hstore, inserted_available_iff hnew (hevicts.available hcharged), ← hplan]
    constructor
    · intro h _ _ _ ref href
      exact (hroom ref href).mp (h ref href)
    · intro h ref href
      exact (hroom ref href).mpr (h hgates hsize hk ref href)

end Node

end Serving

namespace Transport

open Foundation Data Store Serving

section Requests

variable {sigma tau pi : Type} [ContentStore sigma] {f : Fragment}

theorem holdsPayload_of_filter_eq_none {n : Node sigma tau pi}
    (h : f.payloadRef.filter (fun ref => !payloadPresent n ref) = none) : n.HoldsPayload f := by
  intro ref href
  rw [href] at h
  have hpresent := Option.filter_eq_none_iff.mp h ref rfl
  simpa [payloadPresent] using hpresent

theorem holdsPayload_of_rejection_eq_none {n : Node sigma tau pi} {ctx : StoreContext}
    (h : rejection n f ctx = none) : n.HoldsPayload f := by
  unfold rejection at h
  split_ifs at h
  cases hpayload : f.payloadRef.filter (fun ref => !payloadPresent n ref) with
  | none => exact holdsPayload_of_filter_eq_none hpayload
  | some ref =>
    rw [hpayload] at h
    cases h

theorem opPutBlob_available [PayloadDigest] {n : Node sigma tau pi} (havailable : n.Available)
    (payloadRef : String) (data : Bytes) (claimedSha256 : String) :
    (opPutBlob n payloadRef data claimedSha256).2.Available := by
  unfold opPutBlob
  split_ifs
  · exact havailable
  · exact havailable
  · exact havailable
  · cases hput : ContentStore.put n.contentStore payloadRef data with
    | error message => exact havailable
    | ok contentStore =>
      intro ref huses
      rw [ContentStore.has_put hput ref, havailable ref huses, Bool.or_true]

variable [InventoryHash] [LowerTier tau] [EvictionPolicy pi]

/-- A direct store is made with the payload in place; the operations check it
themselves. -/
def PayloadInPlace (n : Node sigma tau pi) : Request -> Prop
  | .call (.mutation (.store f _ _ _ _)) => n.HoldsPayload f
  | _ => True

/-- The requests that keep available payloads available.  A store that is rolled
back leaves no fragment behind that could miss its payload. -/
def KeepsPayloads (n : Node sigma tau pi) : Request -> Prop
  | .call (.mutation (.store f _ caller _ evictTime)) => n.KeepsPayload f caller evictTime
  | .opStore f ctx now evictTime =>
    rejection n (ctx.effective f) ctx = none ->
      ¬ RollsBack n (ctx.effective f) ctx now evictTime ->
        n.KeepsPayload (ctx.effective f) ctx.caller evictTime
  | .opReplicate f _ caller _ evictTime =>
    n.HoldsPayload f -> n.KeepsPayload f caller evictTime
  | _ => True

/-!
# One request
-/

variable {n : Node sigma tau pi}

section

variable (hn : n.Invariant) (havailable : n.Available)

include hn havailable

theorem rollback_available {ctx : StoreContext}
    {now evictTime : ℚ} (h : RollsBack n f ctx now evictTime) :
    (Node.after
      ((storedNode n f ctx now evictTime).removeFragment f.key)).Available := by
  rcases Node.store_then_remove hn h.right.right h.left with
    ⟨victims, room, n', _, hevicts, _, hstore, hremove, hremoved⟩
  have hroom := hevicts.available (Node.charged_available havailable f)
  unfold storedNode
  rw [hstore, hremove]
  intro ref huses
  rcases (hremoved.uses_iff ref).mp huses with ⟨k, u, hkey, hu, href⟩
  rw [Node.get?_inserted, if_neg (by simpa using hkey)] at hu
  exact (hremoved.has_iff (hroom ref ⟨k, u, hu, href⟩)).mpr (fun _ => huses)

theorem opStore_available_iff (f : Fragment) (ctx : StoreContext) (now evictTime : ℚ) :
    (opStore n f ctx now evictTime).2.Available <->
      KeepsPayloads n (.opStore f ctx now evictTime) := by
  classical
  cases hreject : rejection n (ctx.effective f) ctx with
  | some response =>
    rw [opStore_of_rejected n f ctx now evictTime hreject]
    simp only [KeepsPayloads, hreject]
    exact ⟨fun _ => nofun, fun _ => havailable⟩
  | none =>
    simp only [KeepsPayloads, hreject, forall_const]
    rw [opStore_of_not_rejected n f ctx now evictTime hreject, opStoreAccepted_node]
    split_ifs with hrolls
    · exact ⟨fun _ h => absurd hrolls h,
        fun _ => rollback_available hn havailable hrolls⟩
    · simp only [hrolls, not_false_eq_true, forall_const]
      exact Node.store_available_iff hn havailable
        (holdsPayload_of_rejection_eq_none hreject) ctx.isPrimary ctx.caller now evictTime

theorem opReplicate_available_iff
    (f : Fragment) (isPrimary : Bool) (caller : Caller) (now evictTime : ℚ) :
    (opReplicate n f isPrimary caller now evictTime).2.Available <->
      KeepsPayloads n (.opReplicate f isPrimary caller now evictTime) := by
  unfold opReplicate KeepsPayloads
  cases hpayload : f.payloadRef.filter (fun ref => !payloadPresent n ref) with
  | some ref =>
    refine ⟨fun _ hholds => ?_, fun _ => havailable⟩
    rcases Option.filter_eq_some_iff.mp hpayload with ⟨href, habsent⟩
    have hhas := hholds ref href
    simp [payloadPresent, hhas] at habsent
  | none =>
    have hholds := holdsPayload_of_filter_eq_none hpayload
    have hstore := Node.store_available_iff hn havailable hholds isPrimary caller now
      evictTime
    simp only [hholds, forall_const]
    rw [← hstore]

end

variable [PayloadDigest]

theorem handle_available_iff (hn : Tierless n) (havailable : n.Available)
    (request : Request) (hpayload : PayloadInPlace n request) :
    (handle n request).Available <-> KeepsPayloads n request := by
  have hremoves : forall {n' : Node sigma tau pi},
      (exists victims, Node.Evicts n victims n') -> (n'.Available <-> True) := by
    rintro n' ⟨victims, hevicts⟩
    exact iff_true_intro (hevicts.available havailable)
  cases request with
  | opStore f ctx now evictTime =>
    exact opStore_available_iff hn.toInvariant havailable f ctx now evictTime
  | opReplicate f isPrimary caller now evictTime =>
    exact opReplicate_available_iff hn.toInvariant havailable f isPrimary caller now
      evictTime
  | opPutBlob payloadRef data claimedSha256 =>
    exact iff_true_intro (opPutBlob_available havailable payloadRef data claimedSha256)
  | call c =>
    cases c with
    | retrieve thread k caller ownTimes times otherTimes =>
      exact hremoves (Node.retrieve_evicts hn.toConsistent hn.tierless thread k caller
        ownTimes times otherTimes)
    | mutation m =>
      cases m with
      | store f isPrimary caller now evictTime =>
        exact Node.store_available_iff hn.toInvariant havailable hpayload isPrimary
          caller now evictTime
      | removeFragment k =>
        exact hremoves (Node.after_removeFragment_evicts hn.toConsistent k)
      | evict targetBytes now =>
        exact hremoves (Node.after_evict_evicts hn.toConsistent targetBytes now)
      | sweepExpired now =>
        exact hremoves (Node.after_sweepExpired_evicts hn.toConsistent now)

end Requests

/-!
# A lost payload
-/

section LostPayload

attribute [local instance] InventoryHash.constant PayloadDigest.constant

def sharedConfig (maxMemoryBytes : Nat) : Config InProcessBytes Empty WeightedLRU :=
  { Config.default "n0" maxMemoryBytes with
    contentStore :=
      { store := Dict.empty.set "r" [7], usedBytes := 1, capacityBytes := none } }

def sharedStores : List Request :=
  [.call (.mutation (.store firstCopy true Caller.internal 1 1)),
    .call (.mutation (.store secondCopy true Caller.internal 2 2))]

theorem sharedStores_payloadInPlace (maxMemoryBytes : Nat)
    (h : ContentStore.has (handle (Node.create (sharedConfig maxMemoryBytes))
      (.call (.mutation (.store firstCopy true Caller.internal 1 1)))).contentStore "r" =
        true) :
    Along handle PayloadInPlace (Node.create (sharedConfig maxMemoryBytes))
      sharedStores := by
  refine ⟨?_, ?_, trivial⟩
  · intro ref href
    cases href
    rfl
  · intro ref href
    cases href
    exact h

end LostPayload

end Transport
end Membrane
