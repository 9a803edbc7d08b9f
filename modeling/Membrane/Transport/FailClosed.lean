import Membrane.Transport.Availability

/-!
# Failed stores

A store that cannot reach its quorum answers with an error and is meant to leave
no trace of its local write.  It undoes the write through the general removal of
a fragment.  This module states exactly when a failed store leaves the node as
it was, and when it leaves the payload for a retry.
-/

namespace Membrane
namespace Transport

open Foundation Data Store Serving

section FailedStores

variable {sigma tau pi : Type}

def NeedsNoEviction (n : Node sigma tau pi) (f : Fragment) : Prop :=
  f.key ∈ n.fragments ∨ n.table.memoryUsage + f.payloadSize ≤ n.maxMemoryBytes

/-- A failed store leaves no new key behind, and the node as it was where no
eviction was needed. -/
structure FailsClosed (n n' : Node sigma tau pi) (f : Fragment) : Prop where
  absent : ¬ f.key ∈ n.fragments -> ¬ f.key ∈ n'.fragments
  restored : NeedsNoEviction n f ->
    (forall k, n'.fragments.get? k = n.fragments.get? k) ∧
      n'.table.primaryHashes = n.table.primaryHashes ∧
      n'.table.memoryUsage = n.table.memoryUsage

theorem FailsClosed.refl (n : Node sigma tau pi) (f : Fragment) : FailsClosed n n f where
  absent h := h
  restored _ := ⟨fun _ => rfl, rfl, rfl⟩

theorem response_status_eq_503_iff (f : Fragment) (verdict : StoreContext.Verdict) :
    (verdict.response f).status = 503 <-> verdict ≠ .acknowledged := by
  cases verdict <;> simp [StoreContext.Verdict.response, okResponse]

variable {f : Fragment} {ctx : StoreContext} {now evictTime : ℚ}

theorem rejection_eq_missingPayload_iff [ContentStore sigma] {n : Node sigma tau pi}
    {ref : String} (hdraining : ctx.draining = false) (href : f.payloadRef = some ref) :
    rejection n f ctx = some (missingPayload f ref) <->
      ContentStore.has n.contentStore ref = false := by
  unfold rejection
  rw [hdraining, href]
  cases hhas : ContentStore.has n.contentStore ref with
  | false => simp [Option.filter, payloadPresent, hhas]
  | true =>
    simp only [Option.filter, payloadPresent, hhas, Bool.false_eq_true, if_false,
      Bool.not_true, Bool.true_eq_false, iff_false]
    split
    · intro h
      have hbody := congrArg (Option.map Response.body) h
      simp [missingPayload] at hbody
    · intro h
      cases h

variable [InventoryHash] [ContentStore sigma]

theorem primaryHashes_of_removed {room n' : Node sigma tau pi} {isPrimary : Bool}
    (hremoved : Node.Evicts (room.inserted f isPrimary now) [(f.key, f)] n')
    (hnew : ¬ f.key ∈ room.table.primaryHashes) :
    n'.table.primaryHashes = room.table.primaryHashes := by
  ext k
  rw [hremoved.primary k]
  show k ∈ (if isPrimary = true then insert f.key room.table.primaryHashes
    else room.table.primaryHashes) ∧ ¬ k ∈ [f.key] <-> _
  by_cases hk : k = f.key
  · subst hk
    simp [hnew]
  · cases isPrimary <;> simp [hk]

variable [LowerTier tau] [EvictionPolicy pi] {n : Node sigma tau pi}

theorem plannedVictims_eq_nil (hk : ¬ f.key ∈ n.fragments) (h : NeedsNoEviction n f)
    (evictTime : ℚ) : (n.charged f).plannedVictims f evictTime = [] := by
  unfold Node.plannedVictims
  rw [if_neg]
  rw [Node.charged_maxMemoryBytes, Node.charged_table]
  rcases h with hmem | hfits
  · exact absurd hmem hk
  · exact not_lt.mpr hfits

theorem rollback_failsClosed (hn : n.Invariant) (h : RollsBack n f ctx now evictTime) :
    FailsClosed n (Node.after
      ((storedNode n f ctx now evictTime).removeFragment f.key)) f := by
  have hk := h.right.right
  rcases Node.store_then_remove hn hk h.left with
    ⟨victims, room, n', hplan, hevicts, hnew, hstore, hremove, hremoved⟩
  have hgone : ¬ f.key ∈ n'.fragments := by
    intro hmem
    exact ((hremoved.mem_remaining_iff f.key).mp hmem).right (by simp)
  unfold storedNode
  rw [hstore, hremove]
  refine ⟨fun _ => hgone, fun hfits => ?_⟩
  rw [plannedVictims_eq_nil hk hfits] at hplan
  have hnone : victims = [] := List.map_eq_nil_iff.mp hplan
  subst hnone
  have hprimary : room.table.primaryHashes = n.table.primaryHashes := by
    ext k
    rw [hevicts.primary k]
    simp
  refine ⟨fun k => ?_, ?_, ?_⟩
  · show n'.fragments.get? k = n.fragments.get? k
    rw [hremoved.remaining k]
    by_cases heq : k = f.key
    · rw [heq, if_pos (by simp), (Dict.get?_eq_none_iff _ _).mpr hk]
    · rw [if_neg (by simpa using heq), Node.get?_inserted, if_neg heq, hevicts.remaining k,
        if_neg (by simp), Node.charged_fragments]
  · rw [← hprimary]
    apply primaryHashes_of_removed hremoved
    rw [hprimary]
    exact fun hmem => hk (hn.bookkeeping.primary f.key hmem)
  · have hinserted : (room.inserted f ctx.isPrimary now).table.memoryUsage =
        room.table.memoryUsage + f.payloadSize := rfl
    show n'.table.memoryUsage = n.table.memoryUsage
    rw [hremoved.memory, hinserted, hevicts.memory]
    simp [totalBytes]

theorem refresh_failsClosed_iff (hn : n.Invariant) {isPrimary : Bool} {caller : Caller}
    (hk : f.key ∈ n.fragments)
    (hstored : (n.store f isPrimary caller now evictTime).1 = .ok true) :
    FailsClosed n (n.store f isPrimary caller now evictTime).2 f <->
      (isPrimary = true -> f.key ∈ n.table.primaryHashes) := by
  rcases Node.store_cases hn f isPrimary caller now evictTime with
    ⟨_, hfalse, _⟩ | ⟨_, _, hstore⟩ | ⟨_, _, _, hstore⟩ | ⟨_, _, hnew, _⟩
  · exact absurd hstored hfalse
  · rw [hstore] at hstored
    cases hstored
  · have hprimary : ((n.charged f).touch f.key now isPrimary).table.primaryHashes =
        if isPrimary = true then insert f.key n.table.primaryHashes
        else n.table.primaryHashes := by
      rw [← Node.charged_table n f]
      rfl
    rw [hstore]
    constructor
    · intro h hflag
      have heq := (h.restored (Or.inl hk)).right.left
      rw [hprimary, if_pos hflag] at heq
      rw [← heq]
      exact Finset.mem_insert_self _ _
    · intro hflag
      refine ⟨fun hnew => absurd hk hnew, fun _ => ⟨fun k => ?_, ?_, ?_⟩⟩
      · show (n.charged f).fragments.get? k = n.fragments.get? k
        rw [Node.charged_fragments]
      · rw [hprimary]
        cases isPrimary with
        | false => rfl
        | true => exact Finset.insert_eq_of_mem (hflag rfl)
      · show (n.charged f).table.memoryUsage = n.table.memoryUsage
        rw [Node.charged_table]
  · exact absurd hk hnew

/-- The failed stores that leave no trace.  The attempt must not raise for a key
that the store itself created, and a refreshed key must not become primary. -/
def LeavesNoTrace (n : Node sigma tau pi) (f : Fragment) (ctx : StoreContext)
    (now evictTime : ℚ) : Prop :=
  rejection n f ctx = none -> n.Accepts f ctx.caller ->
    storeVerdict n f ctx now evictTime ≠ .acknowledged ->
      if f.key ∈ n.fragments then
        ctx.isPrimary = true -> f.key ∈ n.table.primaryHashes
      else forall message, storeVerdict n f ctx now evictTime ≠ .raised message

theorem storeAccepted_failsClosed_iff_of_new (hn : n.Invariant) (hk : ¬ f.key ∈ n.fragments)
    (hstored : (n.store f ctx.isPrimary ctx.caller now evictTime).1 = .ok true)
    (hfailed : storeVerdict n f ctx now evictTime ≠ .acknowledged) :
    FailsClosed n (opStoreAccepted n f ctx now evictTime).2 f <->
      forall message, storeVerdict n f ctx now evictTime ≠ .raised message := by
  classical
  rw [opStoreAccepted_node]
  by_cases hrolls : (storeVerdict n f ctx now evictTime).rollsBack = true
  · have hrollback : RollsBack n f ctx now evictTime := ⟨hstored, hrolls, hk⟩
    rw [if_pos hrollback]
    refine ⟨fun _ message hraised => ?_, fun _ => rollback_failsClosed hn hrollback⟩
    rw [hraised] at hrolls
    cases hrolls
  · rw [if_neg (fun h => hrolls h.right.left)]
    rcases Node.store_then_remove hn hk hstored with ⟨_, room, _, _, _, _, hstore, _, _⟩
    constructor
    · intro h
      refine absurd ?_ (h.absent hk)
      unfold storedNode
      rw [hstore]
      exact (Node.mem_inserted f.key).mpr (Or.inl rfl)
    · intro hraised
      cases hverdict : storeVerdict n f ctx now evictTime with
      | acknowledged => exact absurd hverdict hfailed
      | raised message => exact absurd hverdict (hraised message)
      | unreachable required | failed ackCount required timedOut =>
        rw [hverdict] at hrolls
        exact absurd rfl hrolls

theorem opStoreAccepted_failsClosed_iff (hn : n.Invariant)
    (hstored : (n.store f ctx.isPrimary ctx.caller now evictTime).1 = .ok true) :
    (forall response, (opStoreAccepted n f ctx now evictTime).1 = .ok response ->
      response.status = 503 -> FailsClosed n (opStoreAccepted n f ctx now evictTime).2 f) <->
      (storeVerdict n f ctx now evictTime ≠ .acknowledged ->
        if f.key ∈ n.fragments then
          ctx.isPrimary = true -> f.key ∈ n.table.primaryHashes
        else forall message, storeVerdict n f ctx now evictTime ≠ .raised message) := by
  classical
  have hresponse := congrArg Prod.fst (opStoreAccepted_of_stored n f ctx now evictTime
    hstored)
  have hclosed (hfailed : storeVerdict n f ctx now evictTime ≠ .acknowledged) :
      FailsClosed n (opStoreAccepted n f ctx now evictTime).2 f <->
        if f.key ∈ n.fragments then
          ctx.isPrimary = true -> f.key ∈ n.table.primaryHashes
        else forall message, storeVerdict n f ctx now evictTime ≠ .raised message := by
    by_cases hk : f.key ∈ n.fragments
    · rw [if_pos hk, opStoreAccepted_node,
        if_neg (fun h : RollsBack n _ _ _ _ => h.right.right hk)]
      exact refresh_failsClosed_iff hn hk hstored
    · rw [if_neg hk]
      exact storeAccepted_failsClosed_iff_of_new hn hk hstored hfailed
  constructor
  · intro h hfailed
    exact (hclosed hfailed).mp
      (h _ hresponse ((response_status_eq_503_iff _ _).mpr hfailed))
  · intro h response heq hstatus
    rw [hresponse] at heq
    cases heq
    have hfailed := (response_status_eq_503_iff _ _).mp hstatus
    exact (hclosed hfailed).mpr (h hfailed)

theorem opStore_failsClosed_iff (hn : n.Invariant) (f : Fragment) (ctx : StoreContext)
    (now evictTime : ℚ) :
    (forall response, (opStore n f ctx now evictTime).1 = .ok response ->
      response.status = 503 ->
        FailsClosed n (opStore n f ctx now evictTime).2 (ctx.effective f)) <->
      LeavesNoTrace n (ctx.effective f) ctx now evictTime := by
  have haccepts := Node.store_eq_true_iff hn (ctx.effective f) ctx.isPrimary ctx.caller now
    evictTime
  unfold LeavesNoTrace
  rw [← haccepts]
  cases hreject : rejection n (ctx.effective f) ctx with
  | some response =>
    rw [opStore_of_rejected n f ctx now evictTime hreject]
    constructor
    · intro _ hnone
      cases hnone
    · intro _ _ _ _
      exact FailsClosed.refl n _
  | none =>
    rw [opStore_of_not_rejected n f ctx now evictTime hreject]
    by_cases hstored : (n.store (ctx.effective f) ctx.isPrimary ctx.caller now
        evictTime).1 = .ok true
    · rw [opStoreAccepted_failsClosed_iff hn hstored]
      exact ⟨fun h _ _ => h, fun h => h rfl hstored⟩
    · rw [opStoreAccepted_of_not_stored n (ctx.effective f) ctx now evictTime hstored]
      exact ⟨fun _ _ h => absurd h hstored,
        fun _ _ heq hstatus => absurd hstatus (localAnswer_status_ne heq)⟩

/-!
# Retries
-/

theorem rollsBack_of_retryAfter (hk : ¬ f.key ∈ n.fragments) (hdraining : ctx.draining = false)
    {response : Response} (hstatus : response.status = 503)
    (hretry : response.hasRetryAfter = true) :
    (rejection n f ctx = some response -> False) ∧
      ((opStoreAccepted n f ctx now evictTime).1 = .ok response ->
        RollsBack n f ctx now evictTime) := by
  constructor
  · intro hreject
    unfold rejection at hreject
    rw [hdraining] at hreject
    simp only [Bool.false_eq_true, if_false] at hreject
    split at hreject
    · cases hreject
      cases hstatus
    · split at hreject
      · cases hreject
        cases hretry
      · cases hreject
  · intro hresponse
    by_cases hstored :
        (n.store f ctx.isPrimary ctx.caller now evictTime).1 = .ok true
    · refine ⟨hstored, ?_, hk⟩
      rw [opStoreAccepted_of_stored n f ctx now evictTime hstored] at hresponse
      cases hresponse
      cases hverdict : storeVerdict n f ctx now evictTime with
      | acknowledged =>
        rw [hverdict] at hstatus
        cases hstatus
      | raised message =>
        rw [hverdict] at hretry
        cases hretry
      | unreachable required | failed ackCount required timedOut => rfl
    · rw [opStoreAccepted_of_not_stored n f ctx now evictTime hstored] at hresponse
      exact absurd hstatus (localAnswer_status_ne hresponse)

theorem rollback_has_iff (hn : n.Invariant) (h : RollsBack n f ctx now evictTime) {ref : String}
    (href : f.payloadRef = some ref) (hhas : ContentStore.has n.contentStore ref = true) :
    ContentStore.has (Node.after
        ((storedNode n f ctx now evictTime).removeFragment f.key)).contentStore ref =
          true <->
      exists k g, ¬ k ∈ (n.charged f).plannedVictims f evictTime ∧
        n.fragments.get? k = some g ∧ g.payloadRef = some ref := by
  rcases Node.store_then_remove hn h.right.right h.left with
    ⟨victims, room, n', hplan, hevicts, hnew, hstore, hremove, hremoved⟩
  have hinserted : Uses (room.inserted f ctx.isPrimary now).fragments ref :=
    (Node.uses_inserted_iff hnew ctx.isPrimary now ref).mpr (Or.inl href)
  have huses : Uses n'.fragments ref <-> Uses room.fragments ref := by
    rw [hremoved.uses_iff ref]
    constructor
    · intro hremaining
      rcases hremaining with ⟨k, g, hk, hg, hgref⟩
      rw [Node.get?_inserted, if_neg (by simpa using hk)] at hg
      exact ⟨k, g, hg, hgref⟩
    · intro hroom
      rcases hroom with ⟨k, g, hg, hgref⟩
      have hk : k ≠ f.key := by
        intro hk
        rw [hk] at hg
        exact hnew (Dict.mem_of_get? hg)
      exact ⟨k, g, by simpa using hk, by rw [Node.get?_inserted, if_neg hk]; exact hg, hgref⟩
  have hroom : Uses room.fragments ref ->
      ContentStore.has (room.inserted f ctx.isPrimary now).contentStore ref = true := by
    intro hroom
    apply (hevicts.has_iff _).mpr (fun _ => hroom)
    rw [Node.charged_contentStore]
    exact hhas
  have hplanned := hevicts.uses_iff ref
  rw [Node.charged_fragments, hplan] at hplanned
  unfold storedNode
  rw [hstore, hremove, ← hplanned]
  constructor
  · intro hafter
    by_contra hnone
    change ContentStore.has n'.contentStore ref = true at hafter
    rw [ContentStore.has_eq,
      hremoved.orphaned ref hinserted (fun hn' => hnone (huses.mp hn'))] at hafter
    cases hafter
  · intro hkept
    exact (hremoved.has_iff (hroom hkept)).mpr (fun _ => huses.mpr hkept)

theorem opStore_retryable_iff (hn : n.Invariant) (f : Fragment) (ctx : StoreContext)
    (now evictTime : ℚ) {ref : String} (href : f.payloadRef = some ref)
    (hhas : ContentStore.has n.contentStore ref = true) (hk : ¬ f.key ∈ n.fragments)
    (hdraining : ctx.draining = false) {response : Response}
    (hresponse : (opStore n f ctx now evictTime).1 = .ok response)
    (hstatus : response.status = 503) (hretry : response.hasRetryAfter = true) :
    (ContentStore.has (opStore n f ctx now evictTime).2.contentStore ref = true ∧
      rejection (opStore n f ctx now evictTime).2 (ctx.effective f) ctx ≠
        some (missingPayload (ctx.effective f) ref)) <->
      exists k g,
        ¬ k ∈ (n.charged (ctx.effective f)).plannedVictims (ctx.effective f) evictTime ∧
          n.fragments.get? k = some g ∧ g.payloadRef = some ref := by
  classical
  have href' : (ctx.effective f).payloadRef = some ref := by
    rw [StoreContext.effective_payloadRef]
    exact href
  have hk' : ¬ (ctx.effective f).key ∈ n.fragments := by
    rw [StoreContext.effective_key]
    exact hk
  rcases rollsBack_of_retryAfter hk' hdraining hstatus hretry with ⟨hnotRejected, hrolls⟩
  have hretried : (ContentStore.has (opStore n f ctx now evictTime).2.contentStore ref =
      true ∧ rejection (opStore n f ctx now evictTime).2 (ctx.effective f) ctx ≠
        some (missingPayload (ctx.effective f) ref)) <->
      ContentStore.has (opStore n f ctx now evictTime).2.contentStore ref = true := by
    rw [ne_eq, rejection_eq_missingPayload_iff hdraining href', Bool.not_eq_false, and_self]
  rw [hretried]
  cases hreject : rejection n (ctx.effective f) ctx with
  | some rejected =>
    rw [opStore_of_rejected n f ctx now evictTime hreject] at hresponse
    cases hresponse
    exact absurd hreject hnotRejected
  | none =>
    rw [opStore_of_not_rejected n f ctx now evictTime hreject] at hresponse ⊢
    have hrollback := hrolls hresponse
    rw [opStoreAccepted_node, if_pos hrollback]
    exact rollback_has_iff hn hrollback href' hhas

end FailedStores

/-!
# Failing inputs
-/

section FailingInputs

attribute [local instance] InventoryHash.constant

def pairCluster (peerHealthy : Bool) : Cluster where
  nodeId := "n0"
  peers := Dict.empty.set "n1" peerHealthy
  clients := {"n1"}
  defaultConsistency := .strong
  quorumCount := 2
  replicaCount := 2
  quorumTimeoutSec := 9

def pairContext (peerHealthy : Bool) (outcome : QuorumOutcome) : StoreContext where
  isPrimary := true
  caller := Caller.internal
  draining := false
  cluster := some (pairCluster peerHealthy)
  quorumAttempt := some (fun _ => outcome)
  storeGuard := none

theorem timedOutStore_failsClosed :
    FailsClosed (Node.create (sharedConfig 100))
      (opStore (Node.create (sharedConfig 100)) firstCopy
        (pairContext true (.result 0 true false)) 1 1).2 firstCopy := by
  have hverdict : storeVerdict (Node.create (sharedConfig 100)) firstCopy
      (pairContext true (.result 0 true false)) 1 1 = .failed 0 2 true := by decide
  have htrace : LeavesNoTrace (Node.create (sharedConfig 100)) firstCopy
      (pairContext true (.result 0 true false)) 1 1 := by
    intro _ _ _
    rw [hverdict]
    exact nofun
  exact (opStore_failsClosed_iff (Node.create_invariant (sharedConfig 100)) firstCopy
    (pairContext true (.result 0 true false)) 1 1).mpr htrace _ rfl rfl

theorem raisedStore_not_failsClosed :
    (opStore (Node.create (sharedConfig 100)) firstCopy
        (pairContext true (.raised "boom")) 1 1).1 =
      .ok
        { status := 503
          body := [("error", .text "quorum_attempt failed"), ("detail", .text "boom")] } ∧
      ¬ FailsClosed (Node.create (sharedConfig 100))
        (opStore (Node.create (sharedConfig 100)) firstCopy
          (pairContext true (.raised "boom")) 1 1).2 firstCopy := by
  refine ⟨by decide, fun h => ?_⟩
  exact absurd (by decide) (h.absent (by decide))

def sharedNode : Node InProcessBytes Empty WeightedLRU :=
  (Node.create (sharedConfig 200)).mutate (.store firstCopy true Caller.internal 1 1)

theorem sharedPayload_retryable :
    ContentStore.has (opStore sharedNode secondCopy
        (pairContext false (.raised "")) 2 2).2.contentStore "r" = true := by
  have hinvariant : sharedNode.Invariant :=
    Node.mutate_invariant (Node.create_invariant (sharedConfig 200)) _
  have hretry := opStore_retryable_iff hinvariant secondCopy
    (pairContext false (.raised "")) 2 2 rfl (by decide) (by decide) rfl
    (show _ = Except.ok (StoreContext.Verdict.response secondCopy (.unreachable 2)) from
      by decide) rfl rfl
  exact (hretry.mpr ⟨"a:h", firstCopy, by decide, by decide, rfl⟩).left

theorem unreachableStore_not_retryable :
    (opStore (Node.create (sharedConfig 100)) firstCopy
        (pairContext false (.raised "")) 1 1).1 =
      .ok
        { status := 503
          body := [("error", .text "quorum not met"),
            ("detail", .text "not enough healthy peers"), ("ack_count", .int 0),
            ("required", .int 2), ("Retry-After", .int 1)] } ∧
      ContentStore.has (Node.create (sharedConfig 100)).contentStore "r" = true ∧
      ContentStore.has (opStore (Node.create (sharedConfig 100)) firstCopy
        (pairContext false (.raised "")) 1 1).2.contentStore "r" = false ∧
      (opStore (opStore (Node.create (sharedConfig 100)) firstCopy
        (pairContext false (.raised "")) 1 1).2 firstCopy
        (pairContext false (.raised "")) 2 2).1 =
        .ok (missingPayload firstCopy "r") := by
  exact ⟨by decide, by decide, by decide, by decide⟩

end FailingInputs

end Transport
end Membrane
