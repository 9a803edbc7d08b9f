import Mathlib.Data.Finset.Max
import Mathlib.Data.String.Basic
import Membrane.Data.Fragment
import Membrane.Store.Digest

/-!
# The fragment table

The table holds the resident fragments of one node together with redundant
bookkeeping: insertion and access times, the primary set, the memory total,
the inventory digest, the copies of other tenants and the number of fragments
that use each payload.  Every thread reads through a cache of its own, which
also buffers the accesses it has not merged yet.

Insertion, removal and the cached lookup are written as compositions of the
single dictionary and counter updates they perform, because lock-free readers
see the table between those updates.
-/

namespace Membrane
namespace Store

open Foundation Data

abbrev Thread := Nat

abbrev CacheEntry := Fragment × ℚ

def readCacheEntries : Nat := 2 ^ 16

structure ReadCache where
  entries : Dict String CacheEntry
  accesses : Dict String ℚ
  deriving DecidableEq

namespace ReadCache

def create : ReadCache :=
  { entries := Dict.empty, accesses := Dict.empty }

def recordAccess (c : ReadCache) (contentHash : String) (now : ℚ) : ReadCache :=
  { c with accesses := c.accesses.set contentHash now }

def clearFull (c : ReadCache) : ReadCache :=
  if readCacheEntries ≤ c.entries.size then { c with entries := Dict.empty } else c

def fill (c : ReadCache) (contentHash : String) (entry : CacheEntry) : ReadCache :=
  { c with entries := c.entries.set contentHash entry }

def drop (c : ReadCache) (contentHash : String) : ReadCache :=
  { c with entries := c.entries.erase contentHash }

end ReadCache

structure FragmentTable where
  fragments : Dict String Fragment
  primaryHashes : Finset String
  accessTimes : Dict String ℚ
  insertionTimes : Dict String ℚ
  memoryUsage : Int
  digest : InventoryDigest
  tenantKeys : Dict String (Finset String)
  payloadRefs : Dict String Int
  caches : Dict Thread ReadCache
  removals : Nat

namespace FragmentTable

def create : FragmentTable :=
  { fragments := Dict.empty
    primaryHashes := ∅
    accessTimes := Dict.empty
    insertionTimes := Dict.empty
    memoryUsage := 0
    digest := InventoryDigest.empty
    tenantKeys := Dict.empty
    payloadRefs := Dict.empty
    caches := Dict.empty
    removals := 0 }

variable (t : FragmentTable)

/-!
# Insertion
-/

def addFragment (f : Fragment) : FragmentTable :=
  { t with fragments := t.fragments.set f.key f }

def addMemory (f : Fragment) : FragmentTable :=
  { t with memoryUsage := t.memoryUsage + f.payloadSize }

def addInsertionTime (f : Fragment) (now : ℚ) : FragmentTable :=
  { t with insertionTimes := t.insertionTimes.set f.key now }

def addDigest [InventoryHash] (f : Fragment) : FragmentTable :=
  { t with digest := t.digest.add f.key f.versionId }

def addTenantKey (f : Fragment) : FragmentTable :=
  { t with
    tenantKeys :=
      if f.key ≠ f.payloadHash then
        t.tenantKeys.set f.payloadHash
          (insert f.key (t.tenantKeys.getD f.payloadHash ∅))
      else t.tenantKeys }

def addPayloadRef (f : Fragment) : FragmentTable :=
  { t with
    payloadRefs :=
      match f.payloadRef with
      | none => t.payloadRefs
      | some ref => t.payloadRefs.set ref (t.payloadRefs.getD ref 0 + 1) }

def add [InventoryHash] (f : Fragment) (now : ℚ) : FragmentTable :=
  ((((((t.addFragment f).addMemory f).addInsertionTime f now).addDigest f).addTenantKey
    f).addPayloadRef f)

def touch (contentHash : String) (now : ℚ) (isPrimary : Bool) : FragmentTable :=
  { t with
    accessTimes := t.accessTimes.set contentHash now
    primaryHashes :=
      if isPrimary then insert contentHash t.primaryHashes else t.primaryHashes }

/-!
# Cached lookup
-/

def cacheOf (thread : Thread) : ReadCache :=
  t.caches.getD thread ReadCache.create

def setCache (thread : Thread) (cache : ReadCache) : FragmentTable :=
  { t with caches := t.caches.set thread cache }

def threadCache (thread : Thread) : FragmentTable :=
  { t with
    caches :=
      if thread ∈ t.caches then t.caches
      else t.caches.set thread ReadCache.create }

def cached (thread : Thread) (contentHash : String) : Option CacheEntry :=
  (t.cacheOf thread).entries.get? contentHash

def recordRead (thread : Thread) (contentHash : String) (now : Option ℚ) :
    FragmentTable :=
  { t with
    caches :=
      match now with
      | none => t.caches
      | some now =>
        t.caches.set thread ((t.cacheOf thread).recordAccess contentHash now) }

def clearFullCache (thread : Thread) : FragmentTable :=
  t.setCache thread (t.cacheOf thread).clearFull

def fillCache (thread : Thread) (contentHash : String) (entry : CacheEntry) :
    FragmentTable :=
  t.setCache thread ((t.cacheOf thread).fill contentHash entry)

def dropCached (thread : Thread) (contentHash : String) : FragmentTable :=
  t.setCache thread ((t.cacheOf thread).drop contentHash)

def entryFor (contentHash : String) (f : Fragment) : CacheEntry :=
  (f, t.insertionTimes.getD contentHash 0 + f.ttl)

def validateFill (thread : Thread) (contentHash : String) (removals : Nat) :
    FragmentTable :=
  { t with
    caches :=
      if t.removals ≠ removals then
        t.caches.set thread ((t.cacheOf thread).drop contentHash)
      else t.caches }

def lookup (thread : Thread) (contentHash : String) (now : Option ℚ) :
    Option CacheEntry × FragmentTable :=
  let opened := t.threadCache thread
  match opened.cached thread contentHash with
  | some entry => (some entry, opened.recordRead thread contentHash now)
  | none =>
    match opened.fragments.get? contentHash with
    | none => (none, opened)
    | some f =>
      let entry := opened.entryFor contentHash f
      let filled := (opened.clearFullCache thread).fillCache thread contentHash entry
      let validated := filled.validateFill thread contentHash opened.removals
      (some entry, validated.recordRead thread contentHash now)

theorem validateFill_self (thread : Thread) (contentHash : String) :
    t.validateFill thread contentHash t.removals = t := by
  unfold validateFill
  rw [if_neg (not_not.mpr rfl)]

variable {t} {thread : Thread} {contentHash : String} {entry : CacheEntry} {f : Fragment}

theorem lookup_of_cached (now : Option ℚ)
    (h : (t.threadCache thread).cached thread contentHash = some entry) :
    t.lookup thread contentHash now =
      (some entry, (t.threadCache thread).recordRead thread contentHash now) := by
  unfold lookup
  simp only [h]

theorem lookup_of_absent (now : Option ℚ)
    (h : (t.threadCache thread).cached thread contentHash = none)
    (habsent : t.fragments.get? contentHash = none) :
    t.lookup thread contentHash now = (none, t.threadCache thread) := by
  have hopened : (t.threadCache thread).fragments.get? contentHash = none := habsent
  unfold lookup
  simp only [h, hopened]

theorem lookup_of_found (now : Option ℚ)
    (h : (t.threadCache thread).cached thread contentHash = none)
    (hfound : t.fragments.get? contentHash = some f) :
    t.lookup thread contentHash now =
      (some (t.entryFor contentHash f),
        (((t.threadCache thread).clearFullCache thread).fillCache thread contentHash
          (t.entryFor contentHash f)).recordRead thread contentHash now) := by
  have hopened : (t.threadCache thread).fragments.get? contentHash = some f := hfound
  unfold lookup
  simp only [h, hopened]
  exact congrArg (fun filled : FragmentTable => (some (t.entryFor contentHash f),
    filled.recordRead thread contentHash now)) (validateFill_self _ thread contentHash)

variable (t)

/-!
# Recency
-/

def mergeAccess (fragments : Dict String Fragment) (accessTimes : Dict String ℚ)
    (access : String × ℚ) : Dict String ℚ :=
  if access.1 ∈ fragments ∧ accessTimes.getD access.1 0 < access.2 then
    accessTimes.set access.1 access.2
  else accessTimes

def recency : FragmentTable :=
  { t with
    accessTimes := t.caches.values.foldl
      (fun times cache => cache.accesses.entries.foldl (mergeAccess t.fragments) times)
      t.accessTimes
    caches := t.caches.mapValues (fun cache => { cache with accesses := Dict.empty }) }

/-!
# Removal
-/

def popFragment (contentHash : String) : FragmentTable :=
  { t with fragments := t.fragments.erase contentHash }

def countRemoval : FragmentTable :=
  { t with removals := t.removals + 1 }

def popCaches (contentHash : String) : FragmentTable :=
  { t with caches := t.caches.mapValues (fun cache => cache.drop contentHash) }

def popDigest [InventoryHash] (contentHash : String) : FragmentTable :=
  { t with digest := t.digest.remove contentHash }

def popMemory (f : Fragment) : FragmentTable :=
  { t with memoryUsage := t.memoryUsage - f.payloadSize }

def popPrimary (contentHash : String) : FragmentTable :=
  { t with primaryHashes := t.primaryHashes.erase contentHash }

def popAccessTime (contentHash : String) : FragmentTable :=
  { t with accessTimes := t.accessTimes.erase contentHash }

def popInsertionTime (contentHash : String) : FragmentTable :=
  { t with insertionTimes := t.insertionTimes.erase contentHash }

def popTenantKey (contentHash : String) (f : Fragment) : FragmentTable :=
  { t with
    tenantKeys :=
      match t.tenantKeys.get? f.payloadHash with
      | none => t.tenantKeys
      | some copies =>
        if copies.erase contentHash = ∅ then t.tenantKeys.erase f.payloadHash
        else t.tenantKeys.set f.payloadHash (copies.erase contentHash) }

def popPayloadRef (f : Fragment) : FragmentTable :=
  { t with
    payloadRefs :=
      match f.payloadRef with
      | none => t.payloadRefs
      | some ref =>
        if 0 < t.payloadRefs.getD ref 1 - 1 then
          t.payloadRefs.set ref (t.payloadRefs.getD ref 1 - 1)
        else t.payloadRefs.erase ref }

def popBookkeeping [InventoryHash] (contentHash : String) (f : Fragment) :
    FragmentTable :=
  (((((((t.popDigest contentHash).popMemory f).popPrimary contentHash).popAccessTime
    contentHash).popInsertionTime contentHash).popTenantKey contentHash f).popPayloadRef f)

/-- Remove a resident fragment; `none` stands for the key error. -/
def pop [InventoryHash] (contentHash : String) : Option (Fragment × FragmentTable) :=
  match t.fragments.get? contentHash with
  | none => none
  | some f =>
    some (f,
      (((t.popFragment contentHash).countRemoval).popCaches contentHash).popBookkeeping
        contentHash f)

/-!
# Queries
-/

def references (payloadRef : String) : Int :=
  t.payloadRefs.getD payloadRef 0

def anyTenantCopy (payloadHash : String) : Option String :=
  let copies := t.tenantKeys.getD payloadHash ∅
  if h : copies.Nonempty then some (copies.min' h) else none

def isExpired (contentHash : String) (now : ℚ) : Bool :=
  match t.fragments.get? contentHash with
  | none => false
  | some f => f.ttl < now - t.insertionTimes.getD contentHash now

def expired (now : ℚ) : List String :=
  t.fragments.keys.filter (fun h => t.isExpired h now)

end FragmentTable

end Store
end Membrane
