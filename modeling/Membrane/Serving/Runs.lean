import Membrane.Foundation.Transition
import Membrane.Serving.Calls
import Membrane.Store.BlobPaths

/-!
# Runs of a node

A run is any sequence of calls on one node.  The bookkeeping of the table and
the memory limit hold after every call of a run, as long as the content store can
address the payloads of the fragments that are inserted.
-/

namespace Membrane
namespace Serving

open Foundation Data Store

/-- The calls that write to a node, with their readings of the clock. -/
inductive Mutation where
  | store (f : Fragment) (isPrimary : Bool) (caller : Caller) (now evictTime : ℚ)
  | removeFragment (contentHash : String)
  | evict (targetBytes : Int) (now : ℚ)
  | sweepExpired (now : ℚ)

inductive Call where
  | mutation (m : Mutation)
  | retrieve (thread : Thread) (contentHash : String) (caller : Caller)
      (ownTimes times otherTimes : Node.ReadTimes)

namespace Node

def member (tenant : String) : Caller :=
  { tenant := tenant, scopes := ∅ }

def storing (f : Fragment) : Call :=
  .mutation (.store f true Caller.internal 1 1)

variable {sigma tau pi : Type}

section TotalStores

variable [InventoryHash] [ContentStore sigma] {n : Node sigma tau pi}

theorem after_removeFragment_evicts (hn : n.Consistent) (k : String) :
    exists victims, Evicts n victims (after (n.removeFragment k)) := by
  cases hremove : n.removeFragment k with
  | error raised =>
    refine ⟨[], ?_⟩
    show Evicts n [] raised.node
    rw [raised_node_of_total hremove]
    exact Evicts.refl hn
  | ok removed => exact ⟨_, removeFragment_evicts hn hremove⟩

theorem not_mem_after_removeFragment (n : Node sigma tau pi) (k : String) :
    ¬ k ∈ (after (n.removeFragment k)).fragments := by
  by_cases hk : k ∈ n.fragments
  · rcases removeFragment_of_mem (addressed n) hk with ⟨f, n', hremove⟩
    rw [hremove]
    show ¬ k ∈ n'.fragments
    rw [(removeFragment_fragments hremove).right, Dict.mem_erase]
    exact fun h => h.left rfl
  · rw [removeFragment_of_not_mem hk]
    exact hk

variable [LowerTier tau]

theorem after_sweepExpired_evicts (hn : n.Consistent) (now : ℚ) :
    exists victims, Evicts n victims (after (n.sweepExpired now)) := by
  rcases sweepExpired_evicts (addressed n) hn now with ⟨victims, n', hsweep, hevicts⟩
  rw [hsweep]
  exact ⟨victims, hevicts⟩

variable [EvictionPolicy pi]

theorem after_evict_evicts (hn : n.Consistent) (targetBytes : Int) (now : ℚ) :
    exists victims, Evicts n victims (after (n.evict targetBytes now)) := by
  rcases evict_evicts (addressed n) hn targetBytes now with ⟨victims, n', hevict, hevicts, _⟩
  rw [hevict]
  exact ⟨victims, hevicts⟩

end TotalStores

variable [InventoryHash] [PayloadStore sigma] [LowerTier tau] [EvictionPolicy pi]

def mutate (n : Node sigma tau pi) : Mutation -> Node sigma tau pi
  | .store f isPrimary caller now evictTime =>
    (n.store f isPrimary caller now evictTime).2
  | .removeFragment contentHash => after (n.removeFragment contentHash)
  | .evict targetBytes now => after (n.evict targetBytes now)
  | .sweepExpired now => after (n.sweepExpired now)

def call (n : Node sigma tau pi) : Call -> Node sigma tau pi
  | .mutation m => n.mutate m
  | .retrieve thread contentHash caller ownTimes times otherTimes =>
    (n.retrieve thread contentHash caller ownTimes times otherTimes).2

/-- The store can address the payload of every fragment that the call may insert. -/
def Addresses (n : Node sigma tau pi) : Call -> Prop
  | .mutation (.store f _ caller _ _) => n.Inserts f caller -> payloadFault sigma f = none
  | .mutation _ => True
  | .retrieve thread contentHash caller ownTimes times otherTimes =>
    forall r, r ∈ n.keyReads thread contentHash caller ownTimes times otherTimes ->
      forall f, r.node.Promotes r.key f -> payloadFault sigma f = none

theorem addresses {sigma : Type} [ContentStore sigma] (n : Node sigma tau pi) (c : Call) :
    n.Addresses c := by
  cases c with
  | mutation m =>
    cases m with
    | store f isPrimary caller now evictTime => exact fun _ => payloadFault_of_total f
    | removeFragment k => trivial
    | evict targetBytes now => trivial
    | sweepExpired now => trivial
  | retrieve thread k caller ownTimes times otherTimes =>
    exact fun _ _ f _ => payloadFault_of_total f

section

variable {n : Node sigma tau pi} {holds : Node sigma tau pi -> Prop}
variable (hkept : KeptBySteps holds) (hn : holds n)

include hkept hn

theorem KeptBySteps.mutate (m : Mutation) (haddresses : n.Addresses (.mutation m)) :
    holds (n.mutate m) := by
  cases m with
  | store f isPrimary caller now evictTime =>
    exact hkept.store n f isPrimary caller now evictTime haddresses hn
  | removeFragment k => exact hkept.removeFragment hn k
  | evict targetBytes now => exact hkept.evict hn targetBytes now
  | sweepExpired now => exact hkept.sweepExpired hn now

theorem KeptBySteps.call (c : Call) (haddresses : n.Addresses c) : holds (n.call c) := by
  cases c with
  | mutation m => exact hkept.mutate hn m haddresses
  | retrieve thread k caller ownTimes times otherTimes =>
    exact (retrieve_of_reads (fun read => holds read.2) (fun r hr hread =>
      hkept.retrieveKey hread thread r.key caller (haddresses r hr) r.times) hn).right

theorem KeptBySteps.run (calls : List Call) (haddresses : Along Node.call Addresses n calls) :
    Throughout Node.call holds n calls :=
  throughout_of_along holds (fun _ c hm haddresses => hkept.call hm c haddresses) hn haddresses

end

theorem run_invariant (config : Config sigma tau pi) (calls : List Call)
    (haddresses : Along call Addresses (create config) calls) :
    Throughout call Invariant (create config) calls :=
  invariant_keptBySteps.run (create_invariant config) calls haddresses

/-- The redundant structures of a node agree with its fragments once the reads were merged. -/
structure BookkeepingHolds (n : Node sigma tau pi) : Prop where
  bookkeeping : n.table.Bookkeeping
  access : n.table.recency.AccessTracked
  capacity : n.table.memoryUsage ≤ n.maxMemoryBytes

section TotalStores

variable {sigma : Type} [ContentStore sigma] {n : Node sigma tau pi}

theorem mutate_cases (hn : n.Consistent) (m : Mutation) :
    (exists f isPrimary caller now evictTime, m = .store f isPrimary caller now evictTime) ∨
      exists victims, Evicts n victims (n.mutate m) := by
  cases m with
  | store f isPrimary caller now evictTime =>
    exact Or.inl ⟨f, isPrimary, caller, now, evictTime, rfl⟩
  | removeFragment k => exact Or.inr (after_removeFragment_evicts hn k)
  | evict targetBytes now => exact Or.inr (after_evict_evicts hn targetBytes now)
  | sweepExpired now => exact Or.inr (after_sweepExpired_evicts hn now)

theorem mutate_invariant (hn : n.Invariant) (m : Mutation) : (n.mutate m).Invariant :=
  invariant_keptBySteps.mutate hn m (addresses n (.mutation m))

theorem call_invariant (hn : n.Invariant) (c : Call) : (n.call c).Invariant :=
  invariant_keptBySteps.call hn c (addresses n c)

end TotalStores

end Node

/-!
# The store on disk

It has no address for a reference of three characters.  A store of such a fragment raises
after the fragment was added to the table and before its access is recorded.
-/

section Sample

attribute [local instance] InventoryHash.constant

def onDisk : Config FilesystemBlob Empty WeightedLRU :=
  { Config.default "node" 200 with contentStore := FilesystemBlob.shared }

def fileCopy : Fragment :=
  Fragment.plain "a" "h" (some "abcd") 60 .strong validateTenantId_a nonempty_h

def shortCopy : Fragment :=
  Fragment.plain "a" "h" (some "abc") 60 .strong validateTenantId_a nonempty_h

end Sample

end Serving
end Membrane
