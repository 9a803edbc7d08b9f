import Membrane.Foundation.Transition
import Membrane.Store.Table

/-!
# Threads on the fragment table

Insertion and removal hold the table's lock, but their updates become visible
one by one.  A lookup takes no lock, except to register the read cache of its
thread, and its steps fall anywhere between those updates.  A run is a list of
events: an operation begins, or the next step of one is taken.
-/

namespace Membrane
namespace Store

open Foundation Data

inductive AddStage where
  | fragment
  | memory
  | insertionTime
  | digest
  | tenantKey
  | payloadRef
  | touch
  deriving DecidableEq

inductive PopStage where
  | digest
  | memory
  | primary
  | accessTime
  | insertionTime
  | tenantKey
  | payloadRef
  deriving DecidableEq

/-- What the holder of the lock does next.  A removal has taken the fragment from
the map before it counts itself. -/
inductive Writer where
  | free
  | adding (stage : AddStage) (f : Fragment) (now : ℚ) (isPrimary : Bool)
  | counting (contentHash : String) (f : Fragment)
  | dropping (contentHash : String) (f : Fragment) (pending : List Thread)
  | unbooking (stage : PopStage) (contentHash : String) (f : Fragment)

/-- What the lookup of a thread does next, or the answer of its last one. -/
inductive Reader where
  | returned (answer : Option CacheEntry)
  | opening (contentHash : String) (now : Option ℚ)
  | probing (contentHash : String) (now : Option ℚ)
  | counting (contentHash : String) (now : Option ℚ)
  | reading (contentHash : String) (now : Option ℚ) (removals : Nat)
  | timing (contentHash : String) (now : Option ℚ) (removals : Nat) (f : Fragment)
  | clearing (contentHash : String) (now : Option ℚ) (removals : Nat) (entry : CacheEntry)
  | filling (contentHash : String) (now : Option ℚ) (removals : Nat) (entry : CacheEntry)
  | validating (contentHash : String) (now : Option ℚ) (removals : Nat)
      (entry : CacheEntry)
  | undoing (contentHash : String) (now : Option ℚ) (entry : CacheEntry)
  | recording (contentHash : String) (now : Option ℚ) (entry : CacheEntry)

/-!
# Steps
-/

/-- A removal turns to one of the read caches it has not visited, in any order. -/
def Writer.dropNext (t : FragmentTable) (thread : Thread) (k : String) (f : Fragment)
    (pending : List Thread) : Writer × FragmentTable :=
  if thread ∈ pending then
    (.dropping k f (pending.filter (fun other => other ≠ thread)), t.dropCached thread k)
  else if pending = [] then (.unbooking .digest k f, t)
  else (.dropping k f pending, t)

def Writer.advance [InventoryHash] (t : FragmentTable) (thread : Thread) :
    Writer -> Writer × FragmentTable
  | .free => (.free, t)
  | .adding .fragment f now isPrimary =>
    (.adding .memory f now isPrimary, t.addFragment f)
  | .adding .memory f now isPrimary =>
    (.adding .insertionTime f now isPrimary, t.addMemory f)
  | .adding .insertionTime f now isPrimary =>
    (.adding .digest f now isPrimary, t.addInsertionTime f now)
  | .adding .digest f now isPrimary =>
    (.adding .tenantKey f now isPrimary, t.addDigest f)
  | .adding .tenantKey f now isPrimary =>
    (.adding .payloadRef f now isPrimary, t.addTenantKey f)
  | .adding .payloadRef f now isPrimary =>
    (.adding .touch f now isPrimary, t.addPayloadRef f)
  | .adding .touch f now isPrimary => (.free, t.touch f.key now isPrimary)
  | .counting k f => (.dropping k f t.caches.keys, t.countRemoval)
  | .dropping k f pending => dropNext t thread k f pending
  | .unbooking .digest k f => (.unbooking .memory k f, t.popDigest k)
  | .unbooking .memory k f => (.unbooking .primary k f, t.popMemory f)
  | .unbooking .primary k f => (.unbooking .accessTime k f, t.popPrimary k)
  | .unbooking .accessTime k f => (.unbooking .insertionTime k f, t.popAccessTime k)
  | .unbooking .insertionTime k f => (.unbooking .tenantKey k f, t.popInsertionTime k)
  | .unbooking .tenantKey k f => (.unbooking .payloadRef k f, t.popTenantKey k f)
  | .unbooking .payloadRef _ f => (.free, t.popPayloadRef f)

/-- The next step of a thread's lookup.  Registering a read cache waits for the
lock. -/
def Reader.advance (t : FragmentTable) (lockFree : Bool) (thread : Thread) :
    Reader -> Reader × FragmentTable
  | .returned answer => (.returned answer, t)
  | .opening k now =>
    if thread ∈ t.caches ∨ lockFree then (.probing k now, t.threadCache thread)
    else (.opening k now, t)
  | .probing k now =>
    match t.cached thread k with
    | some entry => (.recording k now entry, t)
    | none => (.counting k now, t)
  | .counting k now => (.reading k now t.removals, t)
  | .reading k now removals =>
    match t.fragments.get? k with
    | none => (.returned none, t)
    | some f => (.timing k now removals f, t)
  | .timing k now removals f => (.clearing k now removals (t.entryFor k f), t)
  | .clearing k now removals entry =>
    (.filling k now removals entry, t.clearFullCache thread)
  | .filling k now removals entry =>
    (.validating k now removals entry, t.fillCache thread k entry)
  | .validating k now removals entry =>
    if t.removals ≠ removals then (.undoing k now entry, t)
    else (.recording k now entry, t)
  | .undoing k now entry => (.recording k now entry, t.dropCached thread k)
  | .recording k now entry => (.returned (some entry), t.recordRead thread k now)

structure Threads where
  table : FragmentTable
  writer : Writer
  reader : Thread -> Reader

inductive Event where
  | lookup (thread : Thread) (contentHash : String) (now : Option ℚ)
  | read (thread : Thread)
  | store (f : Fragment) (now : ℚ) (isPrimary : Bool)
  | remove (contentHash : String)
  | write (thread : Thread)

def Event.Moves (thread : Thread) : Event -> Prop
  | .lookup other _ _ => other = thread
  | .read other => other = thread
  | _ => False

namespace Threads

def create : Threads :=
  { table := FragmentTable.create
    writer := .free
    reader := fun _ => .returned none }

def lockFree (s : Threads) : Bool :=
  match s.writer with
  | .free => true
  | _ => false

def beginLookup (s : Threads) (thread : Thread) (contentHash : String)
    (now : Option ℚ) : Threads :=
  match s.reader thread with
  | .returned _ =>
    { s with reader := Function.update s.reader thread (.opening contentHash now) }
  | _ => s

def read (s : Threads) (thread : Thread) : Threads :=
  let moved := (s.reader thread).advance s.table s.lockFree thread
  { s with
    table := moved.2
    reader := Function.update s.reader thread moved.1 }

def beginStore (s : Threads) (f : Fragment) (now : ℚ) (isPrimary : Bool) : Threads :=
  if s.lockFree then
    { s with
      writer :=
        if f.key ∈ s.table.fragments then .adding .touch f now isPrimary
        else .adding .fragment f now isPrimary }
  else s

/-- A removal takes the lock and the fragment; an absent key is an error. -/
def beginRemove (s : Threads) (contentHash : String) : Threads :=
  match s.lockFree, s.table.fragments.get? contentHash with
  | true, some f =>
    { s with
      table := s.table.popFragment contentHash
      writer := .counting contentHash f }
  | _, _ => s

def write [InventoryHash] (s : Threads) (thread : Thread) : Threads :=
  let moved := s.writer.advance s.table thread
  { s with
    table := moved.2
    writer := moved.1 }

def step [InventoryHash] (s : Threads) : Event -> Threads
  | .lookup thread contentHash now => s.beginLookup thread contentHash now
  | .read thread => s.read thread
  | .store f now isPrimary => s.beginStore f now isPrimary
  | .remove contentHash => s.beginRemove contentHash
  | .write thread => s.write thread

section Frame

variable [InventoryHash] {thread : Thread}

theorem step_reader_of_not_moves (s : Threads) {event : Event}
    (h : ¬ event.Moves thread) : (s.step event).reader thread = s.reader thread := by
  cases event with
  | lookup other k now =>
    show (s.beginLookup other k now).reader thread = s.reader thread
    unfold beginLookup
    split
    · exact Function.update_of_ne (Ne.symm h) _ _
    · rfl
  | read other => exact Function.update_of_ne (Ne.symm h) _ _
  | store f now isPrimary =>
    show (s.beginStore f now isPrimary).reader thread = s.reader thread
    unfold beginStore
    split_ifs
    · rfl
    · rfl
    · rfl
  | remove k =>
    show (s.beginRemove k).reader thread = s.reader thread
    unfold beginRemove
    split
    · rfl
    · rfl
  | write other => rfl

theorem run_reader_of_not_moves {events : List Event}
    (h : forall event, event ∈ events -> ¬ event.Moves thread) (s : Threads) :
    (run step s events).reader thread = s.reader thread := by
  induction events generalizing s with
  | nil => rfl
  | cons event rest ih =>
    have hrest := ih (fun other hother => h other (List.mem_cons_of_mem _ hother))
      (s.step event)
    exact hrest.trans (s.step_reader_of_not_moves (h event List.mem_cons_self))

end Frame

end Threads

end Store
end Membrane
