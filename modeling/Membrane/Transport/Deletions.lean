import Membrane.Transport.ClusterOps
import Membrane.Transport.Requests

/-!
# Deletions over runs

A node with its tombstone table goes through deletions, gossip messages and the three
operations that bring fragments in.  None of these three asks the table.  A deleted hash
stays away as long as nobody offers a fragment of it before the deadline.
-/

namespace Membrane
namespace Transport

open Foundation Data Store Serving

structure Replica (sigma tau pi : Type) where
  node : Node sigma tau pi
  tombstones : TombstoneTable

inductive Operation where
  | delete (contentHash nodeId : String) (tombstoneUntil : Option Deadline) (now : ℚ)
  | tombstone (contentHash : String) (untilTime : Deadline) (nodeId : String) (now : ℚ)
  | gossip (incoming : Option GossipState) (now : ℚ)
  | store (f : Fragment) (ctx : StoreContext) (now evictTime : ℚ)
  | replicate (f : Fragment) (isPrimary : Bool) (caller : Caller) (now evictTime : ℚ)
  | sync (source : SyncSource) (now : ℚ) (clock : Nat -> ℚ × ℚ)

namespace Operation

def time : Operation -> ℚ
  | .delete _ _ _ now => now
  | .tombstone _ _ _ now => now
  | .gossip _ now => now
  | .store _ _ now _ => now
  | .replicate _ _ _ now _ => now
  | .sync _ now _ => now

def Writes : Operation -> Prop
  | .store .. => True
  | .replicate .. => True
  | .sync .. => True
  | _ => False

end Operation

namespace Replica

variable {sigma tau pi : Type}

def recorded (s : Replica sigma tau pi) : Operation -> List (String × Deadline)
  | .delete contentHash _ tombstoneUntil now =>
    if contentHash ∈ s.node.fragments then
      [(contentHash, tombstoneUntil.getD (now + tombstoneWindow : ℚ))]
    else []
  | .tombstone contentHash untilTime _ _ => [(contentHash, untilTime)]
  | .gossip (some incoming) _ => incoming.fragmentTombstones.entries
  | _ => []

def offered (s : Replica sigma tau pi) : Operation -> List Fragment
  | .store f _ _ _ => [f]
  | .replicate f _ _ _ _ => [f]
  | .sync source _ _ => (syncPlan s.node source).hashes.filterMap fun contentHash =>
    match source.retrieveFragment contentHash with
    | .ok found => found
    | .error _ => none
  | _ => []

def Heeds (s : Replica sigma tau pi) (op : Operation) : Prop :=
  forall f, f ∈ s.offered op ->
    f.key ∈ s.node.fragments ∨ s.tombstones.isActive f.key op.time = false

instance (s : Replica sigma tau pi) (op : Operation) : Decidable (s.Heeds op) :=
  inferInstanceAs (Decidable (forall f, f ∈ s.offered op -> _))

variable [InventoryHash]

structure Copied (source : SyncSource) (hashes : List String) (n n' : Node sigma tau pi) :
    Prop where
  invariant : n'.Invariant
  origin : forall k, k ∈ n'.fragments -> k ∈ n.fragments ∨
    exists contentHash f, contentHash ∈ hashes ∧
      source.retrieveFragment contentHash = .ok (some f) ∧ k = f.key

variable {n : Node sigma tau pi} {s : Replica sigma tau pi} {contentHash : String}
  {deadline : Deadline}

theorem Copied.refl {source : SyncSource} (hn : n.Invariant) (hashes : List String) :
    Copied source hashes n n :=
  ⟨hn, fun _ hk => Or.inl hk⟩

variable [ContentStore sigma] [LowerTier tau] [EvictionPolicy pi]

def step (s : Replica sigma tau pi) : Operation -> Replica sigma tau pi
  | .delete contentHash nodeId tombstoneUntil now =>
    let deleted := opDelete s.node (some s.tombstones) contentHash nodeId tombstoneUntil now
    { node := deleted.2.1, tombstones := deleted.2.2.getD s.tombstones }
  | .tombstone contentHash untilTime nodeId _ =>
    { s with
      tombstones :=
        (opTombstone (some s.tombstones) contentHash untilTime nodeId).2.getD s.tombstones }
  | .gossip incoming _ => { s with tombstones := handleGossip s.tombstones incoming }
  | .store f ctx now evictTime => { s with node := (opStore s.node f ctx now evictTime).2 }
  | .replicate f isPrimary caller now evictTime =>
    { s with node := (opReplicate s.node f isPrimary caller now evictTime).2 }
  | .sync source _ clock => { s with node := (opSync s.node source clock).2 }

/-- Once a deletion was recorded, no write before its deadline brings the hash back. -/
def StaysDeleted (s : Replica sigma tau pi) (ops : List Operation) : Prop :=
  forall before op between write rest contentHash deadline,
    ops = before ++ op :: between ++ write :: rest ->
    (contentHash, deadline) ∈ (run step s before).recorded op ->
    write.Writes -> write.time < deadline ->
    ¬ contentHash ∈ (run step s (before ++ op :: between)).node.fragments ->
    ¬ contentHash ∈ (run step s (before ++ op :: between ++ [write])).node.fragments

/-!
# What is recorded stays recorded
-/

/-- What is recorded stays so, and what the operation records is recorded after it. -/
theorem step_covers {op : Operation} (h : s.tombstones.Covers contentHash deadline ∨
      (contentHash, deadline) ∈ s.recorded op) :
    (s.step op).tombstones.Covers contentHash deadline := by
  cases op with
  | delete k nodeId tombstoneUntil now =>
    rw [recorded] at h
    unfold step
    simp only [opDelete_tombstones, Option.getD_some]
    split_ifs at h ⊢
    · rcases h with h | h
      · exact h.record _ _ _
      · cases List.mem_singleton.mp h
        exact TombstoneTable.record_covers _ _ _
    · exact h.resolve_right List.not_mem_nil
  | tombstone k untilTime nodeId now =>
    rcases h with h | h
    · exact h.record k untilTime {nodeId}
    · cases List.mem_singleton.mp h
      exact TombstoneTable.record_covers _ _ _
  | gossip incoming now =>
    cases incoming with
    | none => exact h.resolve_right List.not_mem_nil
    | some state => exact foldl_record_covers state.nodeId h
  | store f ctx now evictTime | replicate f isPrimary caller now evictTime
  | sync source now clock =>
    exact h.resolve_right List.not_mem_nil

theorem run_covers (h : s.tombstones.Covers contentHash deadline) (ops : List Operation) :
    (run step s ops).tombstones.Covers contentHash deadline := by
  have halong : Along step (fun _ _ => True) s ops :=
    along_of_forall (fun _ _ => trivial) s ops
  exact run_of_along (fun s => s.tombstones.Covers contentHash deadline)
    (fun _ _ hs _ => step_covers (Or.inl hs)) h halong

/-!
# What the writes bring in
-/

theorem opStore_brings (hn : n.Invariant) {f : Fragment} {ctx : StoreContext} {now evictTime : ℚ}
    {k : String} (hk : k ∈ (opStore n f ctx now evictTime).2.fragments) :
    k = f.key ∨ k ∈ n.fragments := by
  classical
  cases hreject : rejection n (ctx.effective f) ctx with
  | some response =>
    rw [opStore_of_rejected n f ctx now evictTime hreject] at hk
    exact Or.inr hk
  | none =>
    rw [opStore_of_not_rejected n f ctx now evictTime hreject, opStoreAccepted_node] at hk
    have hstored : k ∈ (storedNode n (ctx.effective f) ctx now evictTime).fragments := by
      split_ifs at hk
      · rcases Node.after_removeFragment_evicts
          (Node.store_invariant (f := ctx.effective f) hn).toConsistent
          (ctx.effective f).key with ⟨_, hevicts⟩
        exact hevicts.mem_of_remaining hk
      · exact hk
    rw [← ctx.effective_key f]
    exact Node.mem_of_store hn hstored

theorem opReplicate_brings (hn : n.Invariant) {f : Fragment} {isPrimary : Bool} {caller : Caller}
    {now evictTime : ℚ} {k : String}
    (hk : k ∈ (opReplicate n f isPrimary caller now evictTime).2.fragments) :
    k = f.key ∨ k ∈ n.fragments := by
  unfold opReplicate at hk
  split at hk
  · exact Or.inr hk
  · exact Node.mem_of_store hn hk

section Copying

variable (source : SyncSource) (clock : Nat -> ℚ × ℚ)

theorem pull_copied {p : Pulling sigma tau pi} (hp : p.node.Invariant) {hashes : List String}
    (hmem : contentHash ∈ hashes) :
    Copied source hashes p.node (pull source clock p contentHash).2.node := by
  unfold pull
  cases hfound : source.retrieveFragment contentHash with
  | error message => exact Copied.refl hp hashes
  | ok found =>
    cases found with
    | none => exact Copied.refl hp hashes
    | some f =>
      simp only
      cases hpayload : pullPayload source contentHash f p.node with
      | error e => exact Copied.refl hp hashes
      | ok filled =>
        cases filled with
        | none => exact Copied.refl hp hashes
        | some filled =>
          have hfilled : filled.Invariant := by
            rw [pullPayload_eq hpayload]
            exact ⟨⟨hp.bookkeeping, hp.tracked⟩, hp.capacity⟩
          have hsame : filled.fragments = p.node.fragments := by
            rw [pullPayload_eq hpayload]
            rfl
          have hstored : Copied source hashes p.node (filled.store f false
              Caller.internal (clock p.stored).1 (clock p.stored).2).2 := by
            refine ⟨Node.store_invariant hfilled, fun k hk => ?_⟩
            rcases Node.mem_of_store hfilled hk with hk | hk
            · exact Or.inr ⟨contentHash, f, hmem, hfound, hk⟩
            · exact Or.inl (hsame ▸ hk)
          simp only
          split <;> exact hstored

theorem pullAll_copied {all : List String} (hashes : List String)
    (hall : forall contentHash, contentHash ∈ hashes -> contentHash ∈ all)
    {p : Pulling sigma tau pi} (hp : p.node.Invariant) :
    Copied source all p.node (pullAll source clock hashes p).2.node := by
  induction hashes generalizing p with
  | nil => exact Copied.refl hp all
  | cons contentHash rest ih =>
    have hfirst := pull_copied source clock hp
      (hall contentHash List.mem_cons_self)
    unfold pullAll
    rcases hpull : pull source clock p contentHash with ⟨result, next⟩
    rw [hpull] at hfirst
    cases result with
    | error e => exact hfirst
    | ok _ =>
      have hrest := ih (fun other hother => hall other (List.mem_cons_of_mem _ hother))
        hfirst.invariant
      refine ⟨hrest.invariant, fun k hk => ?_⟩
      rcases hrest.origin k hk with hk | hnew
      · exact hfirst.origin k hk
      · exact Or.inr hnew

theorem opSync_copied (hn : n.Invariant) :
    Copied source (syncPlan n source).hashes n (opSync n source clock).2 := by
  have hpulled := pullAll_copied source clock
    (syncPlan n source).hashes (fun _ h => h)
    (p := { node := n, transferred := [], failed := [], stored := 0 }) hn
  unfold opSync
  by_cases hurl : source.url = ""
  · rw [if_pos hurl]
    exact Copied.refl hn _
  · rw [if_neg hurl]
    cases source.urlAccepted with
    | error reason => exact Copied.refl hn _
    | ok _ =>
      simp only
      split_ifs
      · exact Copied.refl hn _
      · split <;> rename_i hall <;> rw [hall] at hpulled <;> exact hpulled

end Copying

theorem step_brings (hs : s.node.Invariant) {op : Operation} {k : String}
    (hk : k ∈ (s.step op).node.fragments) :
    k ∈ s.node.fragments ∨ exists f, f ∈ s.offered op ∧ k = f.key := by
  cases op with
  | delete contentHash nodeId tombstoneUntil now =>
    have hremoved : k ∈ (Node.after (s.node.removeFragment contentHash)).fragments := by
      rw [← opDelete_node s.node (some s.tombstones) contentHash nodeId tombstoneUntil now]
      exact hk
    rcases Node.after_removeFragment_evicts hs.toConsistent contentHash with ⟨_, hevicts⟩
    exact Or.inl (hevicts.mem_of_remaining hremoved)
  | tombstone contentHash untilTime nodeId now | gossip incoming now => exact Or.inl hk
  | store f ctx now evictTime =>
    rcases opStore_brings hs hk with hkey | hk
    · exact Or.inr ⟨f, List.mem_singleton.mpr rfl, hkey⟩
    · exact Or.inl hk
  | replicate f isPrimary caller now evictTime =>
    rcases opReplicate_brings hs hk with hkey | hk
    · exact Or.inr ⟨f, List.mem_singleton.mpr rfl, hkey⟩
    · exact Or.inl hk
  | sync source now clock =>
    rcases (opSync_copied source clock hs).origin k hk with
      hk | ⟨contentHash, f, hplanned, hf, hkey⟩
    · exact Or.inl hk
    · exact Or.inr ⟨f, List.mem_filterMap.mpr ⟨contentHash, hplanned, by rw [hf]⟩, hkey⟩

theorem step_invariant (hs : s.node.Invariant) (op : Operation) :
    (s.step op).node.Invariant := by
  have hremoves : forall (n : Node sigma tau pi) k, n.Invariant ->
      (Node.after (n.removeFragment k)).Invariant :=
    fun n k hn => (Node.mutate_invariant hn (.removeFragment k))
  cases op with
  | delete contentHash nodeId tombstoneUntil now =>
    show (opDelete _ _ _ _ _ _).2.1.Invariant
    rw [opDelete_node]
    exact hremoves _ _ hs
  | tombstone contentHash untilTime nodeId now | gossip incoming now => exact hs
  | store f ctx now evictTime =>
    exact opStore_preserves _ (fun _ _ _ _ _ _ hm => Node.store_invariant hm) hremoves hs
      f ctx now evictTime
  | replicate f isPrimary caller now evictTime =>
    exact opReplicate_preserves _ (fun _ _ _ _ _ _ hm => Node.store_invariant hm) hs f
      isPrimary caller now evictTime
  | sync source now clock => exact (opSync_copied source clock hs).invariant

/-- In a run in which nothing is offered that is known to be deleted, deletions stay in
force until their deadlines. -/
theorem run_staysDeleted {s : Replica sigma tau pi} (hs : s.node.Invariant)
    {ops : List Operation} (hheeds : Along step Heeds s ops) : s.StaysDeleted ops := by
  intro before op between write rest contentHash deadline hops hrecorded _ htime habsent
  subst hops
  rw [run_append]
  have hcovers : (run step s (before ++ op :: between)).tombstones.Covers contentHash
      deadline := by
    rw [run_append]
    exact run_covers (step_covers (Or.inr hrecorded)) between
  have hinvariant : (run step s (before ++ op :: between)).node.Invariant :=
    run_of_along (fun s => s.node.Invariant) (fun _ op hs _ => step_invariant hs op) hs
      (along_append.mp hheeds).left
  have hwrite := (along_append.mp hheeds).right.left
  revert hcovers hinvariant habsent hwrite
  generalize run step s (before ++ op :: between) = current
  intro habsent hcovers hinvariant hwrite hback
  rcases step_brings hinvariant hback with hresident | ⟨f, hf, rfl⟩
  · exact habsent hresident
  · rcases hwrite f hf with hresident | hinactive
    · exact habsent hresident
    · rw [hcovers.isActive htime] at hinactive
      cases hinactive

end Replica

/-!
# A stale replica
-/

section Stale

attribute [local instance] InventoryHash.constant

def emptyReplica : Replica InProcessBytes Empty WeightedLRU :=
  { node := Node.create (Config.default "n0" 100), tombstones := TombstoneTable.create }

def replicateAt (f : Fragment) (now : ℚ) : Operation :=
  .replicate f true Caller.internal now now

def deleteAt (contentHash : String) (now : ℚ) : Operation :=
  .delete contentHash "n0" none now

theorem otherReplica_staysDeleted :
    emptyReplica.StaysDeleted
      [replicateAt publicCopy 1, deleteAt "h" 2, replicateAt publicOther 3,
        replicateAt publicCopy 62] :=
  Replica.run_staysDeleted (Node.create_invariant _)
    ⟨by decide +kernel, by decide +kernel, by decide +kernel, by decide +kernel, trivial⟩

theorem staleReplica_not_staysDeleted :
    ¬ emptyReplica.StaysDeleted
      [replicateAt publicCopy 1, deleteAt "h" 2, replicateAt publicCopy 3] := by
  intro h
  exact h [replicateAt publicCopy 1] (deleteAt "h" 2) [] (replicateAt publicCopy 3) [] "h"
    (62 : ℚ) rfl (by decide +kernel) trivial (by decide +kernel) (by decide +kernel)
    (by decide +kernel)

end Stale

end Transport
end Membrane
