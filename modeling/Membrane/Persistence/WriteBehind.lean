import Mathlib.Data.Rat.Floor
import Membrane.Serving.Runs
import Membrane.Persistence.RedisRecords

/-!
# Write-behind persistence

The hooks of a node put operations into a bounded queue, and one background thread
applies them to the backend in their order.
-/

namespace Membrane
namespace Persistence

open Foundation Data Store Serving

def recordLifetime (f : Fragment) : Nat :=
  max 1 ⌈f.ttl⌉₊

/-!
# The backend
-/

structure Redis where
  records : Dict String (TextRecord.Record × Nat)
  nodeFragments : Dict String (List String)
  primary : Dict String String

namespace Redis

def create : Redis where
  records := Dict.empty
  nodeFragments := Dict.empty
  primary := Dict.empty

def listNodeFragments (r : Redis) (nodeId : String) : List String :=
  r.nodeFragments.getD nodeId []

variable [TextRecord.NumberText]

def storeFragment (r : Redis) (f : Fragment) (nodeId : String) (isPrimary : Bool) : Redis where
  records := r.records.set f.key (TextRecord.serializeFragment f, recordLifetime f)
  nodeFragments :=
    r.nodeFragments.set nodeId ((r.listNodeFragments nodeId).insert f.key)
  primary := if isPrimary then r.primary.set f.key nodeId else r.primary

def forgetOnNode (r : Redis) (contentHash nodeId : String) : Redis :=
  { r with
    nodeFragments := r.nodeFragments.set nodeId
      ((r.listNodeFragments nodeId).filter (fun k => k ≠ contentHash)) }

end Redis

/-!
# The writer
-/

inductive PersistenceOperation where
  | store (fragment : Fragment) (isPrimary : Bool)
  | forget (contentHash : String)
  deriving DecidableEq

namespace PersistenceOperation

variable [TextRecord.NumberText]

def apply (nodeId : String) (r : Redis) : PersistenceOperation -> Redis
  | .store f isPrimary => r.storeFragment f nodeId isPrimary
  | .forget contentHash => r.forgetOnNode contentHash nodeId

def applyAll (nodeId : String) (r : Redis) (operations : List PersistenceOperation) : Redis :=
  operations.foldl (apply nodeId) r

end PersistenceOperation

/-- The operation in flight was taken from the queue and is tried until the backend
takes it. -/
structure PersistenceWriter where
  capacity : Nat
  queue : List PersistenceOperation
  inFlight : Option PersistenceOperation
  dropped : Nat

namespace PersistenceWriter

def create (capacity : Nat) : PersistenceWriter where
  capacity := capacity
  queue := []
  inFlight := none
  dropped := 0

def pending (w : PersistenceWriter) : List PersistenceOperation :=
  w.inFlight.toList ++ w.queue

/-- A capacity of zero is no bound. -/
def enqueue (w : PersistenceWriter) (operation : PersistenceOperation) : PersistenceWriter :=
  if 0 < w.capacity ∧ w.capacity ≤ w.queue.length then { w with dropped := w.dropped + 1 }
  else { w with queue := w.queue ++ [operation] }

def take (w : PersistenceWriter) : PersistenceWriter :=
  match w.inFlight, w.queue with
  | none, operation :: rest => { w with inFlight := some operation, queue := rest }
  | _, _ => w

end PersistenceWriter

/-!
# The writer loses nothing
-/

namespace PersistenceWriter

variable {w : PersistenceWriter}

theorem enqueue_of_kept {operation : PersistenceOperation}
    (h : (w.enqueue operation).dropped = w.dropped) :
    (w.enqueue operation).pending = w.pending ++ [operation] := by
  unfold enqueue at h ⊢
  split_ifs at h ⊢
  · exact absurd h (Nat.succ_ne_self _)
  · unfold pending
    rw [List.append_assoc]

theorem pending_take (w : PersistenceWriter) : w.take.pending = w.pending := by
  unfold take
  split
  · rename_i hflight hqueue
    unfold pending
    rw [hflight, hqueue]
    rfl
  · rfl

end PersistenceWriter

/-!
# What the hooks persist

The hooks of a node announce every fragment that it stores or removes.  A listener that follows
them holds the resident fragments, and the backend lists what such a listener holds once the
writer has applied everything that was enqueued.
-/

def follow (held : Dict String Fragment) : NodeEvent -> Dict String Fragment
  | .stored f _ => held.set f.key f
  | .removed contentHash => held.erase contentHash
  | .evicted _ _ => held

def hooked : NodeEvent -> Option PersistenceOperation
  | .stored f isPrimary => some (.store f isPrimary)
  | .removed contentHash => some (.forget contentHash)
  | .evicted _ _ => none

section Backend

variable [TextRecord.NumberText]

structure Redis.Lists (r : Redis) (nodeId : String) (held : Dict String Fragment) : Prop where
  nodup : (r.listNodeFragments nodeId).Nodup
  keys : forall k, k ∈ r.listNodeFragments nodeId <-> k ∈ held
  records : forall k f, held.get? k = some f ->
    r.records.get? k = some (TextRecord.serializeFragment f, recordLifetime f)

variable {r : Redis} {nodeId : String} {held : Dict String Fragment}

theorem Redis.Lists.store (h : r.Lists nodeId held) (f : Fragment) (isPrimary : Bool) :
    (r.storeFragment f nodeId isPrimary).Lists nodeId (held.set f.key f) where
  nodup := by
    unfold storeFragment listNodeFragments
    rw [Dict.getD, Dict.get?_set_self]
    exact h.nodup.insert
  keys k := by
    rw [Dict.mem_set, ← h.keys k, ← List.mem_insert_iff]
    unfold storeFragment listNodeFragments
    rw [Dict.getD, Dict.get?_set_self, Option.getD_some]
  records k g hg := by
    unfold storeFragment
    rw [Dict.get?_set] at hg ⊢
    split_ifs at hg ⊢
    · cases hg
      rfl
    · exact h.records k g hg

theorem Redis.Lists.forget (h : r.Lists nodeId held) (k : String) :
    (r.forgetOnNode k nodeId).Lists nodeId (held.erase k) where
  nodup := by
    unfold forgetOnNode listNodeFragments
    rw [Dict.getD, Dict.get?_set_self]
    exact h.nodup.filter _
  keys j := by
    rw [Dict.mem_erase, ← h.keys j]
    unfold forgetOnNode listNodeFragments
    rw [Dict.getD, Dict.get?_set_self, Option.getD_some, List.mem_filter, decide_eq_true_eq,
      and_comm]
  records j f hf := by
    rw [Dict.get?_erase] at hf
    split_ifs at hf
    exact h.records j f hf

/-- The backend simulates the listener. -/
theorem Redis.Lists.follow (h : r.Lists nodeId held) (events : List NodeEvent) :
    (PersistenceOperation.applyAll nodeId r (events.filterMap hooked)).Lists nodeId
      (events.foldl Persistence.follow held) := by
  induction events generalizing r held with
  | nil => exact h
  | cons e rest ih =>
    cases e with
    | stored f isPrimary => exact ih (h.store f isPrimary)
    | removed k => exact ih (h.forget k)
    | evicted reason fragments => exact ih h

end Backend

section Following

variable {sigma tau pi : Type}

def Followed (n : Node sigma tau pi) : Prop :=
  n.journal.foldl follow Dict.empty = n.fragments

theorem followed_append {n m : Node sigma tau pi} (h : Followed n) {e : NodeEvent}
    (hjournal : m.journal = n.journal ++ [e]) (hfragments : follow n.fragments e = m.fragments) :
    Followed m := by
  unfold Followed at h ⊢
  rw [hjournal, List.foldl_append, h]
  exact hfragments

theorem Followed.lists [TextRecord.NumberText] {n : Node sigma tau pi} (h : Followed n)
    {r : Redis} {nodeId : String} (hempty : r.listNodeFragments nodeId = []) :
    (PersistenceOperation.applyAll nodeId r (n.journal.filterMap hooked)).Lists nodeId
      n.fragments := by
  rw [← h]
  refine Redis.Lists.follow ⟨?_, fun k => ?_, fun k f hf => ?_⟩ _
  · rw [hempty]
    exact List.nodup_nil
  · rw [hempty]
    exact ⟨fun h => absurd h List.not_mem_nil, fun h => absurd h (Dict.not_mem_empty k)⟩
  · cases hf

variable [InventoryHash] [PayloadStore sigma] [LowerTier tau]

theorem followed_keptByRemovals :
    Node.KeptByRemovals (Followed : Node sigma tau pi -> Prop) where
  demoted _ _ h := h
  remove m k f m' hremove h := by
    have hfragments := (Node.removeFragment_fragments hremove).right
    rcases Node.removeFragment_eq_ok hremove with ⟨table, _, _, rfl⟩
    exact followed_append h rfl hfragments.symm
  raised m k raised hremove h := by
    rcases Node.removeFragment_eq_error hremove with ⟨_, hsame⟩ | ⟨f, table, hpop, _, hnode⟩
    · rw [hsame]
      exact h
    · rw [hnode]
      exact followed_append h rfl (FragmentTable.pop_fragments hpop).symm
  mergeReads _ h := h
  callbacks m evicted reason h := by
    unfold Node.fireEvictionCallbacks
    split_ifs
    · exact h
    · exact followed_append h rfl rfl

variable [EvictionPolicy pi]

theorem followed_keptBySteps : Node.KeptBySteps (Followed : Node sigma tau pi -> Prop) where
  toKeptByRemovals := followed_keptByRemovals
  lookup m thread k now h := by
    show m.journal.foldl follow Dict.empty = (m.table.lookup thread k now).2.fragments
    rw [m.table.lookup_cachesOnly thread k now]
    exact h
  taken _ _ h := h
  filled _ _ h := h
  store m f isPrimary caller now evictTime hfault h := by
    have hcharged : Followed (m.charged f) := by
      rw [m.charged_eq f]
      exact h
    exact followed_keptByRemovals.store Followed hfault h hcharged (fun _ => hcharged)
      (fun _ => hcharged)
      (fun room hroom => ⟨hroom, fun _ _ => followed_append hroom rfl rfl⟩)

theorem followed_run (config : Config sigma tau pi) (calls : List Call)
    (haddresses : Along Node.call Node.Addresses (Node.create config) calls) :
    Throughout Node.call Followed (Node.create config) calls :=
  followed_keptBySteps.run (show Followed (Node.create config) from rfl) calls haddresses

end Following

section Sample

attribute [local instance] InventoryHash.constant TextRecord.tallies

end Sample

end Persistence
end Membrane
