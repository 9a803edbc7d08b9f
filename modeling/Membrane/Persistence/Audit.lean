import Mathlib.Algebra.Order.Field.Rat
import Membrane.Foundation.Transition

/-!
# The audit log

Every entry carries the hash of the entry before.  A new entry joins the chain in memory
before the storage is asked to append it, and stays there when the storage raises.
-/

namespace Membrane
namespace Persistence

open Foundation

structure HashedFields (phi : Type) where
  actor : String
  action : String
  payload : phi
  timestamp : ℚ
  entryId : Option String

class AuditDigest (phi : Type) where
  hashEntry : String -> HashedFields phi -> String

structure AuditEntry (phi : Type) where
  index : Nat
  timestamp : ℚ
  actor : String
  action : String
  payload : phi
  prevHash : String
  entryHash : String
  entryId : String

/-- Entries without an id are hashed without one. -/
def hashedFields (entryId actor action : String) (payload : phi) (ts : ℚ) :
    HashedFields phi :=
  { actor := actor, action := action, payload := payload, timestamp := ts
    entryId := if entryId = "" then none else some entryId }

structure AuditLog (phi : Type) where
  storage : Option (List (AuditEntry phi))
  entries : List (AuditEntry phi)
  headHash : String
  brokenAt : Option Nat

structure RecordCall (phi : Type) where
  actor : String
  action : String
  payload : phi
  timestamp : ℚ
  entryId : String
  failure : Option String

variable {phi : Type} [AuditDigest phi]

def AuditEntry.expected (e : AuditEntry phi) (prevHash : String) : String :=
  AuditDigest.hashEntry prevHash
    (hashedFields e.entryId e.actor e.action e.payload e.timestamp)

/-- The index of the first entry that does not continue the chain. -/
def verifyChain (prevHash : String) : List (AuditEntry phi) -> Option Nat
  | [] => none
  | e :: rest =>
    if e.prevHash ≠ prevHash then some e.index
    else if e.expected prevHash ≠ e.entryHash then some e.index
    else verifyChain e.entryHash rest

namespace AuditLog

def openStorage (entries : List (AuditEntry phi)) : AuditLog phi :=
  { storage := some entries
    entries := entries
    headHash := (entries.getLast?.map AuditEntry.entryHash).getD ""
    brokenAt := verifyChain "" entries }

def nextEntry (log : AuditLog phi) (call : RecordCall phi) : AuditEntry phi :=
  { index := log.entries.length
    timestamp := call.timestamp
    actor := call.actor
    action := call.action
    payload := call.payload
    prevHash := log.headHash
    entryHash := AuditDigest.hashEntry log.headHash
      (hashedFields call.entryId call.actor call.action call.payload call.timestamp)
    entryId := call.entryId }

def record (log : AuditLog phi) (call : RecordCall phi) :
    Except String (AuditEntry phi) × AuditLog phi :=
  let entry := log.nextEntry call
  let chained :=
    { log with entries := log.entries ++ [entry], headHash := entry.entryHash }
  match log.storage, call.failure with
  | none, _ => (.ok entry, chained)
  | some _, some e => (.error e, chained)
  | some stored, none => (.ok entry, { chained with storage := some (stored ++ [entry]) })

def step (log : AuditLog phi) (call : RecordCall phi) : AuditLog phi :=
  (log.record call).2

def LeavesNoTrace (log : AuditLog phi) (call : RecordCall phi) : Prop :=
  forall e, (log.record call).1 = .error e ->
    (log.step call).entries = log.entries ∧ (log.step call).headHash = log.headHash

def StoresChain (log : AuditLog phi) : Prop :=
  forall stored, log.storage = some stored -> (openStorage stored).brokenAt = none

/-!
# The chain in memory and the chain in the storage
-/

theorem verifyChain_append {prevHash : String} {entries : List (AuditEntry phi)}
    {e : AuditEntry phi} (h : verifyChain prevHash entries = none)
    (hprev : e.prevHash = (entries.getLast?.map AuditEntry.entryHash).getD prevHash)
    (hhash : e.expected e.prevHash = e.entryHash) :
    verifyChain prevHash (entries ++ [e]) = none := by
  induction entries generalizing prevHash with
  | nil =>
    rw [List.nil_append, verifyChain, ← show e.prevHash = prevHash from hprev,
      if_neg (not_not.mpr rfl), if_neg (not_not.mpr hhash), verifyChain]
  | cons first rest ih =>
    rw [List.cons_append, verifyChain]
    rw [verifyChain] at h
    split_ifs at h ⊢ with hlink hexpected
    apply ih h
    rw [hprev, List.getLast?_cons]
    cases rest.getLast? <;> rfl

/-- Memory and storage hold the same unbroken chain. -/
structure Mirrored (log : AuditLog phi) : Prop where
  storage : log.storage = some log.entries
  chain : verifyChain "" log.entries = none
  head : log.headHash = (log.entries.getLast?.map AuditEntry.entryHash).getD ""

variable {log : AuditLog phi} {call : RecordCall phi}

theorem record_of_appended {stored : List (AuditEntry phi)} (hstorage : log.storage = some stored)
    (hcall : call.failure = none) :
    log.record call = (.ok (log.nextEntry call),
      { log with
        storage := some (stored ++ [log.nextEntry call])
        entries := log.entries ++ [log.nextEntry call]
        headHash := (log.nextEntry call).entryHash }) := by
  unfold record
  rw [hstorage, hcall]

theorem Mirrored.step (h : log.Mirrored) (hcall : call.failure = none) :
    (log.step call).Mirrored := by
  unfold AuditLog.step
  rw [record_of_appended h.storage hcall]
  exact
    { storage := rfl
      chain := verifyChain_append h.chain h.head rfl
      head := by simp }

theorem LeavesNoTrace.failure_eq_none (h : log.LeavesNoTrace call)
    {stored : List (AuditEntry phi)} (hstorage : log.storage = some stored) :
    call.failure = none := by
  cases hfailure : call.failure with
  | none => rfl
  | some e =>
    have hrecord : log.record call = (.error e,
        { log with
          entries := log.entries ++ [log.nextEntry call]
          headHash := (log.nextEntry call).entryHash }) := by
      unfold record
      rw [hstorage, hfailure]
    have hlength := congrArg List.length (h e (by rw [hrecord])).left
    unfold AuditLog.step at hlength
    rw [hrecord, List.length_append, List.length_singleton] at hlength
    omega

theorem failure_eq_none_of_along {calls : List (RecordCall phi)}
    (h : Along AuditLog.step LeavesNoTrace log calls) {stored : List (AuditEntry phi)}
    (hstorage : log.storage = some stored) :
    forall call, call ∈ calls -> call.failure = none := by
  induction calls generalizing log stored with
  | nil => nofun
  | cons first rest ih =>
    have hfirst := h.left.failure_eq_none hstorage
    have hnext : (log.step first).storage = some (stored ++ [log.nextEntry first]) := by
      unfold AuditLog.step
      rw [record_of_appended hstorage hfirst]
    exact List.forall_mem_cons.mpr ⟨hfirst, ih h.right hnext⟩

/-- Failed calls leave no trace and the stored chain stays unbroken in exactly the runs
where no append raises. -/
theorem run_leaves_no_trace_iff (stored : List (AuditEntry phi))
    (hchain : verifyChain "" stored = none) (calls : List (RecordCall phi)) :
    Along AuditLog.step LeavesNoTrace (openStorage stored) calls ∧
        Throughout AuditLog.step StoresChain (openStorage stored) calls <->
      forall call, call ∈ calls -> call.failure = none := by
  have hstart : (openStorage stored).Mirrored :=
    { storage := rfl, chain := hchain, head := rfl }
  constructor
  · intro h
    exact failure_eq_none_of_along h.left hstart.storage
  · intro h
    have halong : Along AuditLog.step (fun _ call => call.failure = none)
        (openStorage stored) calls :=
      along_of_mem (fun _ call hcall => h call hcall) _
    constructor
    · apply along_of_along Mirrored (fun _ _ hlog hcall => hlog.step hcall) _ hstart halong
      intro log call hlog hcall e hraised
      rw [record_of_appended hlog.storage hcall] at hraised
      cases hraised
    · intro completed hle kept hkept
      have hlog := throughout_of_along Mirrored (fun _ _ hlog hcall => hlog.step hcall)
        hstart halong completed hle
      rw [hlog.storage] at hkept
      rw [← Option.some.inj hkept]
      exact hlog.chain

end AuditLog

section Samples

@[reducible] def AuditDigest.chained : AuditDigest Unit :=
  { hashEntry := fun prevHash fields => prevHash ++ fields.actor }

attribute [local instance] AuditDigest.chained

def recordBy (actor : String) (failure : Option String) : RecordCall Unit :=
  { actor := actor, action := "fragment.store", payload := (), timestamp := 0
    entryId := "id", failure := failure }

theorem run_leaves_no_trace_of_appended :
    Along AuditLog.step AuditLog.LeavesNoTrace (AuditLog.openStorage [])
        [recordBy "a" none, recordBy "b" none] ∧
      Throughout AuditLog.step AuditLog.StoresChain (AuditLog.openStorage [])
        [recordBy "a" none, recordBy "b" none] :=
  (AuditLog.run_leaves_no_trace_iff [] rfl _).mpr (by simp [recordBy])

/-- The entry that was not stored is the first in memory, and the next one is stored as
its successor. -/
theorem failed_append_breaks_chain :
    ¬ (AuditLog.openStorage []).LeavesNoTrace (recordBy "a" (some "disk full")) ∧
      ((run AuditLog.step (AuditLog.openStorage [])
        [recordBy "a" (some "disk full"), recordBy "b" none]).storage.map
          (fun stored => (AuditLog.openStorage stored).brokenAt)) = some (some 1) := by
  refine ⟨fun h => ?_, by decide +kernel⟩
  cases (h "disk full" rfl).left

end Samples

end Persistence
end Membrane
