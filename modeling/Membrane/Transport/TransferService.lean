import Mathlib.Data.Finset.Sort
import Mathlib.Data.String.Basic
import Membrane.Transport.Requests

/-!
# The transfer service

A fragment is transferred between two endpoints, each of them a local node or a peer behind
the cluster.  A local node has its operation for storing and a peer has one for pushing.
The operation is looked up when the transfer comes to it, so that a transfer that was not
meant for the kind of its target raises there.

A bulk synchronisation compares the two inventories and transfers what the target lacks.
-/

namespace Membrane
namespace Transport

open Foundation Data Store Serving

/-- The requests of a transfer to a peer.  Each of them may be without an answer. -/
class TransferClient (rho : Type) where
  getInventory : rho -> Option (Dict String Int) × rho
  retrieveFragment : rho -> String -> Option Fragment × rho
  getBlob : rho -> String -> Option Bytes × rho
  replicateFragment : rho -> Fragment -> Option Bytes -> Bool × rho

/-- The order in which a set is gone through. -/
class SetOrder where
  order : Finset String -> List String
  mem_order : forall s k, k ∈ order s <-> k ∈ s

inductive TransferError where
  | node (error : NodeError)
  | noAttribute (name : String)
  deriving DecidableEq

structure TransferReadings where
  thread : Thread
  ownTimes : String -> Node.ReadTimes
  times : String -> Node.ReadTimes
  otherTimes : String -> Node.ReadTimes
  now : String -> ℚ
  evictTime : String -> ℚ

/-- A peer has a client while it is a member, and its id resolves to no endpoint where no
cluster is configured. -/
inductive Endpoint (rho sigma tau pi : Type) where
  | node (n : Node sigma tau pi)
  | peer (client : Option rho)
  | unresolved

structure Link (rho sigma tau pi : Type) where
  source : Endpoint rho sigma tau pi
  target : Endpoint rho sigma tau pi

section Endpoints

variable {rho sigma tau pi : Type}
variable [ContentStore sigma] [InventoryHash] [LowerTier tau] [EvictionPolicy pi]

def endpointStore (readings : TransferReadings) (contentHash : String) (n : Node sigma tau pi)
    (f : Fragment) (payload : Option Bytes) : Except TransferError Bool × Node sigma tau pi :=
  match f.payloadRef, payload with
  | some ref, some data =>
    if ContentStore.has n.contentStore ref then storeWith n
    else
      match ContentStore.put n.contentStore ref data with
      | .error message =>
        (.error (.node (NodeError.contentStore message)), n)
      | .ok contentStore => storeWith { n with contentStore := contentStore }
  | _, _ => storeWith n
where
  storeWith (n : Node sigma tau pi) : Except TransferError Bool × Node sigma tau pi :=
    match n.store f false Caller.internal (readings.now contentHash)
        (readings.evictTime contentHash) with
    | (.error e, n) => (.error (.node e), n)
    | (.ok stored, n) => (.ok stored, n)

variable [TransferClient rho]

namespace Endpoint

def inventory : Endpoint rho sigma tau pi ->
    Option (Dict String Int) × Endpoint rho sigma tau pi
  | .node n => (some (n.fragments.mapValues (fun f => f.versionId)), .node n)
  | .peer none => (none, .peer none)
  | .peer (some p) =>
    ((TransferClient.getInventory p).1, .peer (some (TransferClient.getInventory p).2))
  | .unresolved => (none, .unresolved)

def retrieve (readings : TransferReadings) (contentHash : String) :
    Endpoint rho sigma tau pi ->
      Except TransferError (Option Fragment) × Endpoint rho sigma tau pi
  | .node n =>
    match n.retrieve readings.thread contentHash Caller.internal
        (readings.ownTimes contentHash) (readings.times contentHash)
        (readings.otherTimes contentHash) with
    | (.error e, n) => (.error (.node e), .node n)
    | (.ok found, n) => (.ok found, .node n)
  | .peer none => (.ok none, .peer none)
  | .peer (some p) =>
    (.ok (TransferClient.retrieveFragment p contentHash).1,
      .peer (some (TransferClient.retrieveFragment p contentHash).2))
  | .unresolved => (.ok none, .unresolved)

def payload (f : Fragment) : Endpoint rho sigma tau pi ->
    Option Bytes × Endpoint rho sigma tau pi
  | .node n => (blobOf n f, .node n)
  | .peer (some p) =>
    match f.payloadRef with
    | none => (none, .peer (some p))
    | some ref =>
      ((TransferClient.getBlob p ref).1, .peer (some (TransferClient.getBlob p ref).2))
  | .peer none => (none, .peer none)
  | .unresolved => (none, .unresolved)

abbrev Operation (rho sigma tau pi : Type) : Type :=
  Fragment -> Option Bytes -> Except TransferError Bool × Endpoint rho sigma tau pi

def store (readings : TransferReadings) (contentHash : String) :
    Endpoint rho sigma tau pi -> Option (Operation rho sigma tau pi)
  | .node n => some (fun f data =>
    ((endpointStore readings contentHash n f data).1,
      .node (endpointStore readings contentHash n f data).2))
  | _ => none

def push : Endpoint rho sigma tau pi -> Option (Operation rho sigma tau pi)
  | .peer none => some (fun _ _ => (.ok false, .peer none))
  | .peer (some p) => some (fun f data =>
    (.ok (TransferClient.replicateFragment p f data).1,
      .peer (some (TransferClient.replicateFragment p f data).2)))
  | _ => none

end Endpoint

/-!
# Transfers
-/

namespace Link

/-- Read a fragment from the source and give it to an operation of the target, which is
looked up by its name before the bytes are read. -/
def transferBy (name : String)
    (lookup : Endpoint rho sigma tau pi -> Option (Endpoint.Operation rho sigma tau pi))
    (readings : TransferReadings) (s : Link rho sigma tau pi) (contentHash : String) :
    Except TransferError Bool × Link rho sigma tau pi :=
  match s.source.retrieve readings contentHash with
  | (.error e, source) => (.error e, { s with source := source })
  | (.ok none, source) => (.ok false, { s with source := source })
  | (.ok (some f), source) =>
    match lookup s.target with
    | none => (.error (.noAttribute name), { s with source := source })
    | some operation =>
      ((operation f (source.payload f).1).1,
        { source := (source.payload f).2
          target := (operation f (source.payload f).1).2 })

def transferLocalEndpoint (readings : TransferReadings) (s : Link rho sigma tau pi)
    (contentHash : String) : Except TransferError Bool × Link rho sigma tau pi :=
  transferBy "store" (Endpoint.store readings contentHash) readings s contentHash

def transferRemoteSource (readings : TransferReadings) (s : Link rho sigma tau pi)
    (contentHash : String) : Except TransferError Bool × Link rho sigma tau pi :=
  transferBy "push" Endpoint.push readings s contentHash

def transferRemoteTarget (readings : TransferReadings) (s : Link rho sigma tau pi)
    (contentHash : String) : Except TransferError Bool × Link rho sigma tau pi :=
  transferBy "push" Endpoint.push readings s contentHash

def transferFragment (readings : TransferReadings) (s : Link rho sigma tau pi)
    (contentHash : String) : Except TransferError Bool × Link rho sigma tau pi :=
  match s.source, s.target with
  | .unresolved, _ | _, .unresolved => (.ok false, s)
  | .node _, .node _ => s.transferLocalEndpoint readings contentHash
  | .peer _, .node _ =>
    transferBy "store" (Endpoint.store readings contentHash) readings s contentHash
  | .peer _, .peer _ => s.transferRemoteSource readings contentHash
  | .node _, .peer _ => s.transferRemoteTarget readings contentHash

def transferEach
    (transfer : Link rho sigma tau pi -> String ->
      Except TransferError Bool × Link rho sigma tau pi) :
    List String -> List String -> Link rho sigma tau pi ->
      Except TransferError (List String) × Link rho sigma tau pi
  | [], transferred, s => (.ok transferred, s)
  | contentHash :: rest, transferred, s =>
    match transfer s contentHash with
    | (.error e, s) => (.error e, s)
    | (.ok ok, s) =>
      transferEach transfer rest
        (if ok then transferred ++ [contentHash] else transferred) s

end Link

/-!
# Bulk synchronisation
-/

def compareInventories (localDigest remoteDigest : Dict String Int) : Finset String :=
  ((remoteDigest.entries.filter (fun entry =>
    (localDigest.get? entry.1).all (fun version => decide (version < entry.2)))).map
      Prod.fst).toFinset

namespace Link

def syncTransfer (readings : TransferReadings) (s : Link rho sigma tau pi)
    (contentHash : String) : Except TransferError Bool × Link rho sigma tau pi :=
  match s.source, s.target with
  | .node _, .node _ => s.transferLocalEndpoint readings contentHash
  | .peer _, _ => s.transferRemoteSource readings contentHash
  | _, .peer _ => s.transferRemoteTarget readings contentHash
  | _, _ => (.ok false, s)

def inventories (s : Link rho sigma tau pi) :
    Option (Dict String Int × Dict String Int) × Link rho sigma tau pi :=
  (s.source.inventory.1.bind (fun held => s.target.inventory.1.map (fun other => (held, other))),
    { source := s.source.inventory.2, target := s.target.inventory.2 })

variable [SetOrder]

def syncLocal (readings : TransferReadings) (s : Link rho sigma tau pi) :
    Except TransferError (List String) × Link rho sigma tau pi :=
  transferEach (fun s => s.transferLocalEndpoint readings)
    (SetOrder.order (compareInventories (s.target.inventory.1.getD Dict.empty)
      (s.source.inventory.1.getD Dict.empty))) [] s

def syncRemote (readings : TransferReadings) (s : Link rho sigma tau pi) :
    Except TransferError (List String) × Link rho sigma tau pi :=
  match s.inventories with
  | (none, s) => (.ok [], s)
  | (some (held, other), s) =>
    transferEach (fun s => s.syncTransfer readings)
      (SetOrder.order (compareInventories other held)) [] s

def syncNodes (readings : TransferReadings) (s : Link rho sigma tau pi) :
    Except TransferError (List String) × Link rho sigma tau pi :=
  match s.source, s.target with
  | .unresolved, _ | _, .unresolved => (.ok [], s)
  | .node _, .node _ => s.syncLocal readings
  | _, _ => s.syncRemote readings

end Link

end Endpoints

/-!
# Which hashes are compared as missing
-/

def Lacks (held other : Dict String Int) (contentHash : String) : Prop :=
  exists version, held.get? contentHash = some version ∧
    forall older, other.get? contentHash = some older -> older < version

theorem mem_compareInventories (other held : Dict String Int) (contentHash : String) :
    contentHash ∈ compareInventories other held <-> Lacks held other contentHash := by
  unfold compareInventories Lacks
  rw [List.mem_toFinset]
  refine (held.mem_filter (fun k version =>
    (other.get? k).all (fun older => decide (older < version))) contentHash).trans ?_
  simp only [Option.all_eq_true, decide_eq_true_eq]

/-!
# Kinds of endpoints
-/

inductive EndpointKind where
  | node
  | peer
  | unresolved
  deriving DecidableEq

section Kinds

variable {rho sigma tau pi : Type}

def Endpoint.kind : Endpoint rho sigma tau pi -> EndpointKind
  | .node _ => .node
  | .peer _ => .peer
  | .unresolved => .unresolved

namespace Endpoint

/-- The operations found under a name leave an endpoint of the same kind. -/
def KeepsKind (lookup : Endpoint rho sigma tau pi -> Option (Operation rho sigma tau pi)) :
    Prop :=
  forall e operation, lookup e = some operation ->
    forall f data, (operation f data).2.kind = e.kind

section Storing

variable [ContentStore sigma] [InventoryHash] [LowerTier tau] [EvictionPolicy pi]

theorem store_keepsKind (readings : TransferReadings) (contentHash : String) :
    KeepsKind (store readings contentHash :
      Endpoint rho sigma tau pi -> Option (Operation rho sigma tau pi)) := by
  intro e operation h f data
  cases e with
  | node n =>
    cases h
    rfl
  | peer client | unresolved => cases h

end Storing

end Endpoint

def Link.kinds (s : Link rho sigma tau pi) : EndpointKind × EndpointKind :=
  (s.source.kind, s.target.kind)

variable {s : Link rho sigma tau pi} {held other : Dict String Int}

namespace Link

theorem exists_of_kinds_pull (h : s.kinds = (.peer, .node)) :
    exists client n, s = ⟨.peer client, .node n⟩ := by
  obtain ⟨source, target⟩ := s
  cases source with
  | node n | unresolved => cases h
  | peer client =>
    cases target with
    | peer other | unresolved => cases h
    | node n => exact ⟨client, n, rfl⟩

/-!
# Repeated transfers
-/

variable {transfer : Link rho sigma tau pi -> String ->
  Except TransferError Bool × Link rho sigma tau pi}

theorem transferEach_congr
    {other : Link rho sigma tau pi -> String -> Except TransferError Bool × Link rho sigma tau pi}
    (holds : Link rho sigma tau pi -> Prop) (hkept : forall s k, holds s -> holds (other s k).2)
    (hsame : forall s k, holds s -> transfer s k = other s k) (hashes transferred : List String)
    (hs : holds s) :
    transferEach transfer hashes transferred s = transferEach other hashes transferred s := by
  induction hashes generalizing transferred s with
  | nil => rfl
  | cons contentHash rest ih =>
    rw [transferEach, transferEach, hsame s contentHash hs]
    have hnext := hkept s contentHash hs
    split
    · rfl
    next heq =>
        rw [heq] at hnext
        exact ih _ hnext

theorem length_transferEach_le {hashes transferred found : List String}
    (h : (transferEach transfer hashes transferred s).1 = .ok found) :
    found.length ≤ transferred.length + hashes.length := by
  induction hashes generalizing transferred s with
  | nil =>
    cases h
    exact Nat.le_add_right _ _
  | cons contentHash rest ih =>
    rw [transferEach] at h
    split at h
    · cases h
    next ok next heq =>
        have hrest := ih h
        rw [List.length_cons]
        cases ok with
        | true =>
          rw [if_pos rfl, List.length_append, List.length_singleton] at hrest
          omega
        | false =>
          rw [if_neg Bool.false_ne_true] at hrest
          omega

theorem transfer_of_transferEach {contentHash : String} {rest : List String}
    (h : (transferEach transfer (contentHash :: rest) [] s).1 =
      .ok (contentHash :: rest)) : (transfer s contentHash).1 = .ok true := by
  rw [transferEach] at h
  cases hfirst : transfer s contentHash with
  | mk answer next =>
    rw [hfirst] at h
    cases answer with
    | error e => cases h
    | ok ok =>
      cases ok with
      | true => rfl
      | false =>
        have hlength := length_transferEach_le h
        rw [if_neg Bool.false_ne_true, List.length_cons, List.length_nil] at hlength
        omega

end Link

variable [TransferClient rho]

theorem Endpoint.push_keepsKind :
    KeepsKind (push : Endpoint rho sigma tau pi -> Option (Operation rho sigma tau pi)) := by
  intro e operation h f data
  cases e with
  | node n | unresolved => cases h
  | peer client =>
    cases client with
    | none | some p =>
      cases h
      rfl

theorem Endpoint.kind_of_inventory {e : Endpoint rho sigma tau pi} {digest : Dict String Int}
    (h : e.inventory.1 = some digest) : e.kind ≠ .unresolved := by
  cases e with
  | node n | peer client => exact EndpointKind.noConfusion
  | unresolved => cases h

theorem Link.kind_of_inventories (h : s.inventories.1 = some (held, other)) :
    s.source.kind ≠ .unresolved ∧ s.target.kind ≠ .unresolved := by
  obtain ⟨found, hsource, hrest⟩ := Option.bind_eq_some_iff.mp h
  obtain ⟨_, htarget, _⟩ := Option.map_eq_some_iff.mp hrest
  exact ⟨Endpoint.kind_of_inventory hsource, Endpoint.kind_of_inventory htarget⟩

theorem Endpoint.kind_inventory (e : Endpoint rho sigma tau pi) :
    e.inventory.2.kind = e.kind := by
  unfold inventory
  split <;> rfl

theorem Link.kinds_inventories (s : Link rho sigma tau pi) :
    s.inventories.2.kinds = s.kinds := by
  unfold inventories kinds
  rw [s.source.kind_inventory, s.target.kind_inventory]

variable [ContentStore sigma]

theorem Endpoint.kind_payload (e : Endpoint rho sigma tau pi) (f : Fragment) :
    (e.payload f).2.kind = e.kind := by
  unfold payload
  split
  · rfl
  · split <;> rfl
  · rfl
  · rfl

variable [InventoryHash] [LowerTier tau] [EvictionPolicy pi]
variable (readings : TransferReadings)

theorem Endpoint.kind_retrieve (e : Endpoint rho sigma tau pi) (contentHash : String) :
    (e.retrieve readings contentHash).2.kind = e.kind := by
  unfold retrieve
  split
  · split <;> rfl
  · rfl
  · rfl
  · rfl

namespace Link

theorem kinds_transferBy (name : String)
    {lookup : Endpoint rho sigma tau pi -> Option (Endpoint.Operation rho sigma tau pi)}
    (hkeeps : Endpoint.KeepsKind lookup) (s : Link rho sigma tau pi) (contentHash : String) :
    (transferBy name lookup readings s contentHash).2.kinds = s.kinds := by
  have hread := s.source.kind_retrieve readings contentHash
  unfold transferBy kinds
  split
  next heq =>
      rw [heq] at hread
      rw [← hread]
  next heq =>
      rw [heq] at hread
      rw [← hread]
  next f source heq =>
      rw [heq] at hread
      rw [← hread]
      split
      · rfl
      next operation hfound =>
          rw [← hkeeps _ _ hfound f (source.payload f).1, ← source.kind_payload f]

theorem kinds_transferFragment (s : Link rho sigma tau pi) (contentHash : String) :
    (s.transferFragment readings contentHash).2.kinds = s.kinds := by
  have hstore := kinds_transferBy readings "store"
    (Endpoint.store_keepsKind readings contentHash) s contentHash
  have hpush := kinds_transferBy readings "push" Endpoint.push_keepsKind s contentHash
  unfold transferFragment
  split
  · rfl
  · rfl
  · exact hstore
  · exact hstore
  · exact hpush
  · exact hpush

/-!
# Bulk synchronisation and single transfers
-/

theorem syncTransfer_eq (contentHash : String) (hsource : s.source.kind ≠ .unresolved)
    (htarget : s.target.kind ≠ .unresolved) (hkinds : s.kinds ≠ (.peer, .node)) :
    s.syncTransfer readings contentHash = s.transferFragment readings contentHash := by
  unfold syncTransfer transferFragment
  cases hs : s.source with
  | unresolved => exact absurd (congrArg Endpoint.kind hs) hsource
  | node n =>
    cases ht : s.target with
    | unresolved => exact absurd (congrArg Endpoint.kind ht) htarget
    | node m | peer client => rfl
  | peer client =>
    cases ht : s.target with
    | unresolved => exact absurd (congrArg Endpoint.kind ht) htarget
    | peer other => rfl
    | node m =>
      refine absurd ?_ hkinds
      unfold kinds
      rw [hs, ht]
      rfl

theorem syncTransfer_of_nodes (contentHash : String) (hkinds : s.kinds = (.node, .node)) :
    s.syncTransfer readings contentHash = s.transferLocalEndpoint readings contentHash := by
  obtain ⟨source, target⟩ := s
  cases source with
  | node n =>
    cases target with
    | node m => rfl
    | peer client | unresolved => cases hkinds
  | peer client | unresolved => cases hkinds

/-- A fragment that single transfers bring from a peer to a local node cannot be pushed
there. -/
theorem syncTransfer_raises {contentHash : String} (hkinds : s.kinds = (.peer, .node))
    (h : (s.transferFragment readings contentHash).1 = .ok true) :
    (s.syncTransfer readings contentHash).1 = .error (.noAttribute "push") := by
  obtain ⟨client, n, rfl⟩ := exists_of_kinds_pull hkinds
  change (transferBy _ _ readings _ contentHash).1 = _ at h
  show (transferBy _ _ readings _ contentHash).1 = _
  unfold transferBy at h ⊢
  split at h
  · cases h
  · cases h
  · rfl

variable [SetOrder]

def singleTransfers (held other : Dict String Int) (s : Link rho sigma tau pi) :
    Except TransferError (List String) × Link rho sigma tau pi :=
  transferEach (fun s => s.transferFragment readings)
    (SetOrder.order (compareInventories other held)) [] s.inventories.2

theorem syncRemote_eq (h : s.inventories.1 = some (held, other)) :
    s.syncRemote readings = transferEach (fun s => s.syncTransfer readings)
      (SetOrder.order (compareInventories other held)) [] s.inventories.2 := by
  unfold syncRemote
  cases hread : s.inventories with
  | mk digests next =>
    rw [hread] at h
    cases h
    rfl

section

variable (hinventories : s.inventories.1 = some (held, other))

include hinventories

theorem syncNodes_eq (hkinds : s.kinds ≠ (.peer, .node)) :
    s.syncNodes readings = s.singleTransfers readings held other := by
  obtain ⟨hsource, htarget⟩ := kind_of_inventories hinventories
  have hkept : forall (t : Link rho sigma tau pi) k, t.kinds = s.kinds ->
      (t.transferFragment readings k).2.kinds = s.kinds :=
    fun t k ht => (t.kinds_transferFragment readings k).trans ht
  have hsame : forall (t : Link rho sigma tau pi) k, t.kinds = s.kinds ->
      t.syncTransfer readings k = t.transferFragment readings k := by
    intro t k ht
    refine syncTransfer_eq readings k ?_ ?_ (ht ▸ hkinds)
    · rw [show t.source.kind = s.source.kind from congrArg Prod.fst ht]
      exact hsource
    · rw [show t.target.kind = s.target.kind from congrArg Prod.snd ht]
      exact htarget
  have hloop : transferEach (fun t => t.syncTransfer readings)
      (SetOrder.order (compareInventories other held)) [] s.inventories.2 =
        s.singleTransfers readings held other :=
    transferEach_congr (fun t => t.kinds = s.kinds) hkept hsame _ _ s.kinds_inventories
  rw [← hloop]
  obtain ⟨source, target⟩ := s
  cases source with
  | unresolved => exact absurd rfl hsource
  | peer client =>
    cases target with
    | unresolved => exact absurd rfl htarget
    | node m => exact absurd rfl hkinds
    | peer receiver => exact syncRemote_eq readings hinventories
  | node n =>
    cases target with
    | unresolved => exact absurd rfl htarget
    | peer receiver => exact syncRemote_eq readings hinventories
    | node m =>
      cases hinventories
      refine transferEach_congr (fun t => t.kinds = (.node, .node)) ?_ ?_ _ _ rfl
      · intro t k ht
        rw [hsame t k ht]
        exact hkept t k ht
      · intro t k ht
        exact (syncTransfer_of_nodes readings k ht).symm

theorem syncNodes_of_pull (hkinds : s.kinds = (.peer, .node)) :
    s.syncNodes readings = transferEach (fun s => s.syncTransfer readings)
      (SetOrder.order (compareInventories other held)) [] s.inventories.2 := by
  rw [← syncRemote_eq readings hinventories]
  obtain ⟨client, n, rfl⟩ := exists_of_kinds_pull hkinds
  rfl

theorem syncNodes_raises
    (hkinds : s.kinds = (.peer, .node)) {first : String} {rest : List String}
    (horder : SetOrder.order (compareInventories other held) = first :: rest)
    (hsucceeds : (s.singleTransfers readings held other).1 = .ok (first :: rest)) :
    (s.syncNodes readings).1 = .error (.noAttribute "push") := by
  unfold singleTransfers at hsucceeds
  rw [horder] at hsucceeds
  have hraises := syncTransfer_raises readings (s.kinds_inventories.trans hkinds)
    (transfer_of_transferEach hsucceeds)
  rw [syncNodes_of_pull readings hinventories hkinds, horder, transferEach]
  split
  next heq =>
      rw [heq] at hraises
      cases hraises
      rfl
  next heq =>
      rw [heq] at hraises
      cases hraises

end

/-- A synchronisation returns what the target lacks, and leaves the target as the single
transfers do. -/
def RepeatsSingles (held other : Dict String Int) (s : Link rho sigma tau pi) : Prop :=
  exists transferred, (s.syncNodes readings).1 = .ok transferred ∧
    (forall k, k ∈ transferred <-> Lacks held other k) ∧
    (s.syncNodes readings).2.target = (s.singleTransfers readings held other).2.target

/-- Where both inventories are answered and every single transfer succeeds, the
synchronisation repeats them, except from a peer that has something for a local node. -/
theorem syncNodes_repeatsSingles_iff (s : Link rho sigma tau pi)
    (held other : Dict String Int) (hinventories : s.inventories.1 = some (held, other))
    (hsucceeds : (s.singleTransfers readings held other).1 =
      .ok (SetOrder.order (compareInventories other held))) :
    s.RepeatsSingles readings held other <->
      s.source.kind = .node ∨ s.target.kind = .peer ∨ forall k, ¬ Lacks held other k := by
  obtain ⟨hsource, htarget⟩ := kind_of_inventories hinventories
  have hlisted : forall k, k ∈ SetOrder.order (compareInventories other held) <->
      Lacks held other k :=
    fun k => (SetOrder.mem_order _ k).trans (mem_compareInventories other held k)
  by_cases hkinds : s.kinds = (.peer, .node)
  · have hpeer : s.source.kind = .peer := congrArg Prod.fst hkinds
    have hnode : s.target.kind = .node := congrArg Prod.snd hkinds
    cases horder : SetOrder.order (compareInventories other held) with
    | nil =>
      have hnone : forall k, ¬ Lacks held other k := by
        intro k hk
        have hmem := (hlisted k).mpr hk
        rw [horder] at hmem
        cases hmem
      refine iff_of_true ⟨[], ?_, fun k => ?_, ?_⟩ (Or.inr (Or.inr hnone))
      · rw [syncNodes_of_pull readings hinventories hkinds, horder]
        rfl
      · exact iff_of_false List.not_mem_nil (hnone k)
      · rw [syncNodes_of_pull readings hinventories hkinds, singleTransfers, horder]
        rfl
    | cons first rest =>
      rw [horder] at hsucceeds
      have hraises := syncNodes_raises readings hinventories hkinds horder hsucceeds
      refine iff_of_false ?_ ?_
      · rintro ⟨transferred, hreturned, _⟩
        rw [hraises] at hreturned
        cases hreturned
      · rintro (hlocal | hremote | hnone)
        · rw [hpeer] at hlocal
          cases hlocal
        · rw [hnode] at hremote
          cases hremote
        · refine hnone first ((hlisted first).mp ?_)
          rw [horder]
          exact List.mem_cons_self
  · have heq := syncNodes_eq readings hinventories hkinds
    have hrepeats : s.RepeatsSingles readings held other := by
      refine ⟨_, ?_, hlisted, ?_⟩
      · rw [heq]
        exact hsucceeds
      · rw [heq]
    refine iff_of_true hrepeats ?_
    cases hs : s.source.kind with
    | node => exact Or.inl rfl
    | unresolved => exact absurd hs hsource
    | peer =>
      cases ht : s.target.kind with
      | peer => exact Or.inr (Or.inl rfl)
      | unresolved => exact absurd ht htarget
      | node => exact absurd (Prod.ext hs ht) hkinds

end Link

end Kinds

/-!
# A synchronisation from a peer
-/

structure FragmentPeer where
  fragments : Dict String Fragment

instance : TransferClient FragmentPeer where
  getInventory p := (some (p.fragments.mapValues (fun f => f.versionId)), p)
  retrieveFragment p contentHash := (p.fragments.get? contentHash, p)
  getBlob p _ := (none, p)
  replicateFragment p f _ := (true, { p with fragments := p.fragments.set f.key f })

theorem string_le_trans : IsTrans String (· ≤ ·) := inferInstance

theorem string_le_antisymm : @Std.Antisymm String (· ≤ ·) := inferInstance

@[reducible] def SetOrder.sorted : SetOrder where
  order s := @Finset.sort String s (· ≤ ·) String.decLE string_le_trans string_le_antisymm
    LE.total
  mem_order _ _ := Finset.mem_sort _

section Sample

attribute [local instance] InventoryHash.constant SetOrder.sorted

def steadyReadings : TransferReadings where
  thread := 0
  ownTimes _ := ⟨1, 1, 1⟩
  times _ := ⟨1, 1, 1⟩
  otherTimes _ := ⟨1, 1, 1⟩
  now _ := 1
  evictTime _ := 1

def emptyNode : Node InProcessBytes Empty WeightedLRU :=
  Node.create (Config.default "n0" 100)

def holdingNode : Node InProcessBytes Empty WeightedLRU :=
  emptyNode.call (.mutation (.store publicCopy true Caller.internal 1 1))

def toPeer : Link FragmentPeer InProcessBytes Empty WeightedLRU where
  source := .node holdingNode
  target := .peer (some ⟨Dict.empty⟩)

def fromPeer : Link FragmentPeer InProcessBytes Empty WeightedLRU where
  source := .peer (some ⟨Dict.empty.set "h" publicCopy⟩)
  target := .node emptyNode

theorem toPeer_repeatsSingles :
    toPeer.RepeatsSingles steadyReadings (Dict.empty.set "h" 1) Dict.empty :=
  (Link.syncNodes_repeatsSingles_iff steadyReadings toPeer (Dict.empty.set "h" 1) Dict.empty
    (by decide +kernel) (by decide +kernel)).mpr (Or.inl rfl)

/-- The single transfer stores the fragment, and the synchronisation raises. -/
theorem fromPeer_not_repeatsSingles :
    fromPeer.inventories.1 = some (Dict.empty.set "h" 1, Dict.empty) ∧
      (fromPeer.singleTransfers steadyReadings (Dict.empty.set "h" 1) Dict.empty).1 =
        .ok ["h"] ∧
      ¬ fromPeer.RepeatsSingles steadyReadings (Dict.empty.set "h" 1) Dict.empty := by
  refine ⟨by decide +kernel, by decide +kernel, ?_⟩
  rintro ⟨transferred, hreturned, _⟩
  have hraises : (fromPeer.syncNodes steadyReadings).1 =
      .error (.noAttribute "push") := by decide +kernel
  rw [hraises] at hreturned
  cases hreturned

end Sample

end Transport
end Membrane
