import Membrane.Network.Membership
import Membrane.Network.ShardPlacement

/-!
# The tables of a cluster member

A member keeps the records of its peers, a client for each of them and the ring.  Peers are
added with new and with known names, removed, and restored from a snapshot.
-/

namespace Membrane
namespace Network

open Foundation Data

def address (credentials : PeerCredentials) (host : String) (port : Int) : String :=
  stripSlashes (peerUrl credentials (host ++ ":" ++ toString port))

/-!
# Snapshots
-/

structure PeerName where
  nodeId : String
  host : String
  port : Int

/-- What a snapshot says about a peer, and the time at which it is read.  A value that is
missing or cannot be converted raises. -/
structure SnapshotEntry where
  name : Except String PeerName
  peerCn : String
  clusterEpoch : Except String Int
  healthy : Bool
  suspect : Bool
  missedHeartbeats : Except String Nat
  leaseUntil : Except String ℚ
  readAt : ℚ

inductive LoadError where
  | ring (e : RingError)
  | entry (message : String)

/-- Take over what a snapshot says, up to the first value that raises. -/
def PeerInfo.takeEntry (p : PeerInfo) (e : SnapshotEntry) : Except String Unit × PeerInfo :=
  match e.clusterEpoch with
  | .error message => (.error message, p)
  | .ok clusterEpoch =>
    let flagged :=
      { p with clusterEpoch := clusterEpoch, healthy := e.healthy, suspect := e.suspect }
    match e.missedHeartbeats with
    | .error message => (.error message, flagged)
    | .ok missedHeartbeats =>
      let counted := { flagged with missedHeartbeats := missedHeartbeats }
      match e.leaseUntil with
      | .error message => (.error message, counted)
      | .ok leaseUntil => (.ok (), { counted with leaseUntil := leaseUntil })

theorem PeerInfo.takeEntry_address (p : PeerInfo) (e : SnapshotEntry) :
    (p.takeEntry e).2.host = p.host ∧ (p.takeEntry e).2.port = p.port := by
  unfold takeEntry
  cases e.clusterEpoch with
  | error message => exact ⟨rfl, rfl⟩
  | ok clusterEpoch =>
    cases e.missedHeartbeats with
    | error message => exact ⟨rfl, rfl⟩
    | ok missedHeartbeats =>
      cases e.leaseUntil with
      | error message | ok leaseUntil => exact ⟨rfl, rfl⟩

inductive TableCall where
  | add (nodeId host : String) (port : Int) (peerCn : String) (now : ℚ)
  | remove (nodeId : String)
  | loadSnapshot (payload : List SnapshotEntry)

namespace Membership

/-!
# Agreement
-/

/-- The ring holds the local node and the peers, every peer has a client, and every client
has the address of its peer. -/
structure TablesAgree (m : Membership) : Prop where
  ring : forall id, id ∈ m.ring.nodeIds <-> id = m.nodeId ∨ id ∈ m.peers
  clients : forall id, id ∈ m.clients <-> id ∈ m.peers
  addresses : forall id client p, m.clients.get? id = some client ->
    m.peers.get? id = some p -> client.baseUrl = address m.credentials p.host p.port

structure TablesSound (m : Membership) : Prop extends TablesAgree m where
  remote : ¬ m.nodeId ∈ m.peers

variable {m : Membership}

variable {nodeId id : String} {change : PeerInfo -> PeerInfo} {credentials : PeerCredentials}
  {done : List SnapshotEntry}

theorem update_get?
    (hchange : forall p, m.peers.get? nodeId = some p ->
      (change p).host = p.host ∧ (change p).port = p.port)
    {p : PeerInfo} (h : (m.update nodeId change).peers.get? id = some p) :
    exists old, m.peers.get? id = some old ∧ p.host = old.host ∧ p.port = old.port := by
  change (m.peers.modify nodeId change).get? id = some p at h
  rw [Dict.get?_modify] at h
  split_ifs at h with hid
  · rcases Option.map_eq_some_iff.mp h with ⟨old, hold, hnew⟩
    rw [hid, ← hnew]
    exact ⟨old, hold, hchange old hold⟩
  · exact ⟨p, h, rfl, rfl⟩

theorem update_tablesSound (h : m.TablesSound)
    (hchange : forall p, m.peers.get? nodeId = some p ->
      (change p).host = p.host ∧ (change p).port = p.port) :
    (m.update nodeId change).TablesSound := by
  have hmem : forall id, id ∈ (m.update nodeId change).peers <-> id ∈ m.peers :=
    fun id => Dict.mem_modify m.peers nodeId change id
  refine ⟨⟨?_, ?_, ?_⟩, ?_⟩
  · intro id
    rw [hmem]
    exact h.ring id
  · intro id
    rw [hmem]
    exact h.clients id
  · intro id client p hclient hp
    rcases update_get? hchange hp with ⟨old, hold, hhost, hport⟩
    rw [hhost, hport]
    exact h.addresses id client old hclient hold
  · rw [hmem]
    exact h.remote

/-- Every peer was added by one of the entries read so far, with its address. -/
def LoadedFrom (done : List SnapshotEntry) (m : Membership) : Prop :=
  forall id p, m.peers.get? id = some p -> exists e name,
    e ∈ done ∧ e.name = .ok name ∧ name.nodeId = id ∧
      address m.credentials name.host name.port = address m.credentials p.host p.port

structure Loading (credentials : PeerCredentials) (done : List SnapshotEntry)
    (m : Membership) : Prop where
  tables : m.TablesSound
  credentials_eq : m.credentials = credentials
  loaded : m.LoadedFrom done

theorem Loading.update (h : m.Loading credentials done)
    (hchange : forall p, m.peers.get? nodeId = some p ->
      (change p).host = p.host ∧ (change p).port = p.port) :
    (m.update nodeId change).Loading credentials done where
  tables := update_tablesSound h.tables hchange
  credentials_eq := h.credentials_eq
  loaded := by
    intro id p hp
    rcases update_get? hchange hp with ⟨old, hold, hhost, hport⟩
    rw [hhost, hport]
    exact h.loaded id old hold

section Tables

variable [RingPoints]

/-!
# Loading
-/

def clearPeers : List String -> Membership -> Except RingError Unit × Membership
  | [], m => (.ok (), m)
  | id :: rest, m =>
    match m.remove id with
    | (.error e, left) => (.error e, left)
    | (.ok _, left) => clearPeers rest left

/-- A peer with the name of the local node is not added, and looking its record up raises. -/
def loadEntry (m : Membership) (e : SnapshotEntry) : Except LoadError Unit × Membership :=
  match e.name with
  | .error message => (.error (.entry message), m)
  | .ok name =>
    match m.add name.nodeId name.host name.port e.peerCn e.readAt with
    | (.error error, added) => (.error (.ring error), added)
    | (.ok _, added) =>
      match added.peers.get? name.nodeId with
      | none => (.error (.entry name.nodeId), added)
      | some p =>
        ((p.takeEntry e).1.mapError .entry,
          added.update name.nodeId (fun _ => (p.takeEntry e).2))

def loadEntries : List SnapshotEntry -> Membership -> Except LoadError Unit × Membership
  | [], m => (.ok (), m)
  | e :: rest, m =>
    match m.loadEntry e with
    | (.error error, loaded) => (.error error, loaded)
    | (.ok _, loaded) => loadEntries rest loaded

def loadSnapshot (m : Membership) (payload : List SnapshotEntry) :
    Except LoadError Unit × Membership :=
  match clearPeers m.peers.keys m with
  | (.error e, left) => (.error (.ring e), left)
  | (.ok _, left) => loadEntries payload left

def tableCall (m : Membership) : TableCall -> Membership
  | .add nodeId host port peerCn now => (m.add nodeId host port peerCn now).2
  | .remove nodeId => (m.remove nodeId).2
  | .loadSnapshot payload => (m.loadSnapshot payload).2

def SameAddress (m : Membership) (nodeId host : String) (port : Int) : Prop :=
  forall p, m.peers.get? nodeId = some p ->
    address m.credentials host port = address m.credentials p.host p.port

def OneAddress (credentials : PeerCredentials) (e other : SnapshotEntry) : Prop :=
  forall name otherName, e.name = .ok name -> other.name = .ok otherName ->
    name.nodeId = otherName.nodeId ->
    address credentials name.host name.port = address credentials otherName.host otherName.port

/-- A known peer is only added with its own address, and a snapshot gives one address for
each peer. -/
def KeepsAddresses (m : Membership) : TableCall -> Prop
  | .add nodeId host port _ _ => m.SameAddress nodeId host port
  | .remove _ => True
  | .loadSnapshot payload => payload.Pairwise (OneAddress m.credentials)

/-!
# Adding and removing a peer
-/

theorem add_tablesSound (h : m.TablesSound) {host : String} {port : Int}
    (hsame : m.SameAddress nodeId host port) (peerCn : String) (now : ℚ) :
    (m.add nodeId host port peerCn now).2.TablesSound := by
  unfold add
  by_cases hlocal : nodeId = m.nodeId
  · rw [if_pos hlocal]
    exact h
  rw [if_neg hlocal]
  split_ifs
  · refine ⟨⟨?_, ?_, ?_⟩, ?_⟩
    · intro id
      rw [Dict.mem_modify, h.ring]
    · intro id
      rw [Dict.mem_modify, h.clients]
    · intro id client p hclient hp
      rw [Dict.get?_modify] at hp
      split_ifs at hp with hid
      · rcases Option.map_eq_some_iff.mp hp with ⟨old, hold, hnew⟩
        rw [hid] at hclient
        rw [h.addresses nodeId client old hclient hold, ← hsame old hold, ← hnew]
      · exact h.addresses id client p hclient hp
    · rw [Dict.mem_modify]
      exact h.remote
  · refine ⟨⟨?_, ?_, ?_⟩, ?_⟩
    · intro id
      rw [Ring.addNode_nodeIds, Finset.mem_insert, Dict.mem_set, h.ring, or_left_comm]
    · intro id
      rw [Dict.mem_set, Dict.mem_set, h.clients]
    · intro id client p hclient hp
      rw [Dict.get?_set] at hclient hp
      split_ifs at hclient with hid
      · rw [if_pos hid] at hp
        rw [← Option.some.inj hclient, ← Option.some.inj hp]
        rfl
      · rw [if_neg hid] at hp
        exact h.addresses id client p hclient hp
    · rw [Dict.mem_set, not_or]
      exact ⟨fun heq => hlocal heq.symm, h.remote⟩

theorem remove_fields (hmem : nodeId ∈ m.peers) :
    (m.remove nodeId).2.nodeId = m.nodeId ∧
      (m.remove nodeId).2.credentials = m.credentials ∧
      (m.remove nodeId).2.peers = m.peers.erase nodeId ∧
      (m.remove nodeId).2.clients = m.clients.erase nodeId ∧
      (m.remove nodeId).2.ring = m.ring.removeNode nodeId := by
  unfold remove
  rw [if_neg (not_not.mpr hmem)]
  cases hplaced : (m.shard.removeNode nodeId).1 with
  | error e | ok _ => simp only [hplaced, and_self]

theorem remove_of_not_mem (hmem : ¬ nodeId ∈ m.peers) :
    m.remove nodeId = (.ok false, m) := by
  unfold remove
  rw [if_pos hmem]

theorem remove_tablesSound (h : m.TablesSound) (nodeId : String) :
    (m.remove nodeId).2.TablesSound := by
  by_cases hmem : nodeId ∈ m.peers
  · rcases remove_fields hmem with ⟨hlocal, hcredentials, hpeers, hclients, hring⟩
    have hne : m.nodeId ≠ nodeId := fun heq => h.remote (heq ▸ hmem)
    refine ⟨⟨?_, ?_, ?_⟩, ?_⟩
    · intro id
      rw [hring, hlocal, hpeers, Ring.removeNode_nodeIds]
      exact mem_erase_iff_of_mem_iff h.ring hne.symm id
    · intro id
      rw [hclients, hpeers, Dict.mem_erase, Dict.mem_erase, h.clients]
    · intro id client p hclient hp
      rw [hclients, Dict.get?_erase] at hclient
      rw [hpeers, Dict.get?_erase] at hp
      rw [hcredentials]
      split_ifs at hclient with hid
      rw [if_neg hid] at hp
      exact h.addresses id client p hclient hp
    · rw [hlocal, hpeers, Dict.mem_erase]
      exact fun hlocalMem => h.remote hlocalMem.right
  · rw [remove_of_not_mem hmem]
    exact h

/-!
# Restoring a snapshot
-/

theorem clearPeers_tablesSound (h : m.TablesSound) (ids : List String) :
    (clearPeers ids m).2.TablesSound := by
  induction ids generalizing m with
  | nil => exact h
  | cons id rest ih =>
    have hleft := remove_tablesSound h id
    rw [clearPeers]
    rcases hremove : m.remove id with ⟨result, left⟩
    rw [hremove] at hleft
    cases result with
    | error e => exact hleft
    | ok known => exact ih hleft

theorem remove_mem_peers (h : id ∈ (m.remove nodeId).2.peers) : id ∈ m.peers ∧ id ≠ nodeId := by
  by_cases hmem : nodeId ∈ m.peers
  · rw [(remove_fields hmem).right.right.left, Dict.mem_erase] at h
    exact ⟨h.right, h.left⟩
  · rw [remove_of_not_mem hmem] at h
    exact ⟨h, fun heq => hmem (heq ▸ h)⟩

theorem clearPeers_mem_peers (ids : List String) (hok : (clearPeers ids m).1 = .ok ())
    (h : id ∈ (clearPeers ids m).2.peers) : id ∈ m.peers ∧ ¬ id ∈ ids := by
  induction ids generalizing m with
  | nil => exact ⟨h, List.not_mem_nil⟩
  | cons first rest ih =>
    rw [clearPeers] at hok h
    rcases hremove : m.remove first with ⟨result, left⟩
    rw [hremove] at hok h
    cases result with
    | error e => cases hok
    | ok known =>
      have hrest := ih hok h
      have hfirst : id ∈ (m.remove first).2.peers := by
        rw [hremove]
        exact hrest.left
      have hparts := remove_mem_peers hfirst
      refine ⟨hparts.left, ?_⟩
      intro hmem
      rcases List.mem_cons.mp hmem with heq | hmem
      · exact hparts.right heq
      · exact hrest.right hmem

theorem add_credentials (nodeId host : String) (port : Int) (peerCn : String) (now : ℚ) :
    (m.add nodeId host port peerCn now).2.credentials = m.credentials := by
  unfold add
  split_ifs with hlocal hmem
  · rfl
  · rfl
  · rfl

theorem add_get? {host : String} {port : Int} {peerCn : String} {now : ℚ} {p : PeerInfo}
    (h : (m.add nodeId host port peerCn now).2.peers.get? id = some p) :
    (id = nodeId ∧ p.host = host ∧ p.port = port) ∨ m.peers.get? id = some p := by
  unfold add at h
  split_ifs at h with hlocal hmem
  · exact Or.inr h
  · rw [Dict.get?_modify] at h
    split_ifs at h with hid
    · rcases Option.map_eq_some_iff.mp h with ⟨old, _, hnew⟩
      rw [← hnew]
      exact Or.inl ⟨hid, rfl, rfl⟩
    · exact Or.inr h
  · rw [Dict.get?_set] at h
    split_ifs at h with hid
    · cases h
      exact Or.inl ⟨hid, rfl, rfl⟩
    · exact Or.inr h

theorem Loading.add (h : m.Loading credentials done) {e : SnapshotEntry} {name : PeerName}
    (hname : e.name = .ok name)
    (hone : forall other, other ∈ done -> OneAddress credentials other e) (now : ℚ) :
    (m.add name.nodeId name.host name.port e.peerCn now).2.Loading credentials (done ++ [e]) where
  tables := by
    apply add_tablesSound h.tables
    intro p hp
    rcases h.loaded name.nodeId p hp with ⟨other, otherName, hother, hothername, hid, haddress⟩
    rw [← haddress, h.credentials_eq]
    exact (hone other hother otherName name hothername hname hid).symm
  credentials_eq := by
    rw [add_credentials]
    exact h.credentials_eq
  loaded := by
    intro id p hp
    rw [add_credentials]
    rcases add_get? hp with hnew | hold
    · rcases hnew with ⟨hid, hhost, hport⟩
      refine ⟨e, name, List.mem_append_right _ List.mem_cons_self, hname, hid.symm, ?_⟩
      rw [hhost, hport]
    · rcases h.loaded id p hold with ⟨other, otherName, hother, hrest⟩
      exact ⟨other, otherName, List.mem_append_left _ hother, hrest⟩

theorem Loading.loadEntry (h : m.Loading credentials done) {e : SnapshotEntry}
    (hone : forall other, other ∈ done -> OneAddress credentials other e) :
    (m.loadEntry e).2.Loading credentials (done ++ [e]) := by
  unfold Membership.loadEntry
  cases hname : e.name with
  | error message =>
    refine { h with loaded := ?_ }
    intro id p hp
    rcases h.loaded id p hp with ⟨other, otherName, hother, hrest⟩
    exact ⟨other, otherName, List.mem_append_left _ hother, hrest⟩
  | ok name =>
    have hadded := h.add hname hone e.readAt
    simp only
    rcases hadd : m.add name.nodeId name.host name.port e.peerCn e.readAt with
      ⟨result, added⟩
    rw [hadd] at hadded
    cases result with
    | error error => exact hadded
    | ok _ =>
      simp only
      cases hp : added.peers.get? name.nodeId with
      | none => exact hadded
      | some p =>
        apply hadded.update
        intro old hold
        rw [hp] at hold
        cases hold
        exact p.takeEntry_address e

variable {payload : List SnapshotEntry}

theorem Loading.loadEntries (h : m.Loading credentials done)
    (hpayload : payload.Pairwise (OneAddress credentials))
    (hdone : forall other, other ∈ done -> forall e, e ∈ payload ->
      OneAddress credentials other e) : (Membership.loadEntries payload m).2.TablesSound := by
  induction payload generalizing done m with
  | nil => exact h.tables
  | cons e rest ih =>
    have hparts := List.pairwise_cons.mp hpayload
    have hentry := h.loadEntry (fun other hother => hdone other hother e List.mem_cons_self)
    rw [Membership.loadEntries]
    rcases hload : m.loadEntry e with ⟨result, loaded⟩
    rw [hload] at hentry
    cases result with
    | error error => exact hentry.tables
    | ok _ =>
      apply ih hentry hparts.right
      intro other hother later hlater
      rcases List.mem_append.mp hother with hold | hnew
      · exact hdone other hold later (List.mem_cons_of_mem e hlater)
      · rw [List.mem_singleton.mp hnew]
        exact hparts.left later hlater

theorem clearPeers_credentials (ids : List String) :
    (clearPeers ids m).2.credentials = m.credentials := by
  induction ids generalizing m with
  | nil => rfl
  | cons id rest ih =>
    have hremove : (m.remove id).2.credentials = m.credentials := by
      by_cases hmem : id ∈ m.peers
      · exact (remove_fields hmem).right.left
      · rw [remove_of_not_mem hmem]
    rw [clearPeers]
    rcases hresult : m.remove id with ⟨result, left⟩
    rw [hresult] at hremove
    cases result with
    | error e => exact hremove
    | ok known => exact ih.trans hremove

theorem loadSnapshot_tablesSound (h : m.TablesSound)
    (hpayload : payload.Pairwise (OneAddress m.credentials)) :
    (m.loadSnapshot payload).2.TablesSound := by
  have hleft := clearPeers_tablesSound h m.peers.keys
  have hcredentials := clearPeers_credentials (m := m) m.peers.keys
  have hpeers := fun hok (id : String) (hid : id ∈ (clearPeers m.peers.keys m).2.peers) =>
    clearPeers_mem_peers m.peers.keys hok hid
  unfold loadSnapshot
  rcases hremoved : clearPeers m.peers.keys m with ⟨result, left⟩
  rw [hremoved] at hleft hcredentials hpeers
  cases result with
  | error e => exact hleft
  | ok _ =>
    have hempty : forall id, ¬ id ∈ left.peers := by
      intro id hid
      have hgone := hpeers rfl id hid
      exact hgone.right hgone.left
    have hloading : left.Loading m.credentials [] :=
      { tables := hleft
        credentials_eq := hcredentials
        loaded := fun id p hp => absurd (Dict.mem_of_get? hp) (hempty id) }
    exact hloading.loadEntries hpayload (fun other hother => by cases hother)

/-!
# Runs
-/

theorem create_tablesSound (nodeId : String) (credentials : PeerCredentials)
    (virtualNodes : Nat) (shard : Shard) (directory : Registry) :
    (create nodeId credentials (Ring.create virtualNodes) shard directory).TablesSound := by
  refine ⟨⟨?_, ?_, ?_⟩, ?_⟩
  · intro id
    show id ∈ ((Ring.create virtualNodes).addNode nodeId).nodeIds <->
      id = nodeId ∨ id ∈ (Dict.empty : Dict String PeerInfo)
    simp [Ring.create]
  · intro id
    exact ⟨fun hid => absurd hid (Dict.not_mem_empty id),
      fun hid => absurd hid (Dict.not_mem_empty id)⟩
  · intro id client p hclient
    cases hclient
  · exact Dict.not_mem_empty nodeId

theorem tableCall_tablesSound (h : m.TablesSound) {c : TableCall}
    (hkeeps : m.KeepsAddresses c) : (m.tableCall c).TablesSound := by
  cases c with
  | add nodeId host port peerCn now => exact add_tablesSound h hkeeps peerCn now
  | remove nodeId => exact remove_tablesSound h nodeId
  | loadSnapshot payload => exact loadSnapshot_tablesSound h hkeeps

/-- In every run that gives known peers no other address the tables agree in every state. -/
theorem run_tablesAgree (nodeId : String) (credentials : PeerCredentials)
    (virtualNodes : Nat) (shard : Shard) (directory : Registry) (calls : List TableCall)
    (hkeeps : Along tableCall KeepsAddresses
      (create nodeId credentials (Ring.create virtualNodes) shard directory) calls) :
    Throughout tableCall TablesAgree
      (create nodeId credentials (Ring.create virtualNodes) shard directory) calls := by
  intro completed hleading
  have hsound := throughout_of_along TablesSound
    (fun _ _ hm hallowed => tableCall_tablesSound hm hallowed)
    (create_tablesSound nodeId credentials virtualNodes shard directory) hkeeps
  exact (hsound completed hleading).toTablesAgree

end Tables

end Membership

/-!
# A peer with a new address
-/

section Moving

attribute [local instance] RingDigest.verbatim

def firstMember : Membership :=
  Membership.create "a" { scheme := "http", bearerToken := "" } (Ring.create 1)
    (Shard.create (Ring.create 1) 2)
    { nodes := ∅, fragmentLocations := Dict.empty, maxEntries := 200000 }

theorem rejoinedPeer_agrees :
    Throughout Membership.tableCall Membership.TablesAgree firstMember
      [.add "b" "10.0.0.2" 8080 "" 1, .add "b" "10.0.0.2" 8080 "admin-b" 2] := by
  apply Membership.run_tablesAgree
  refine ⟨?_, ?_, trivial⟩
  · intro p hp
    cases hp
  · intro p hp
    cases hp
    rfl

def movedPeer : List TableCall :=
  [.add "b" "10.0.0.2" 8080 "" 1, .add "b" "10.0.0.3" 8080 "" 2]

theorem movedPeer_disagrees :
    ((run Membership.tableCall firstMember movedPeer).peers.get? "b").map
        (fun p => (p.host, p.port)) = some ("10.0.0.3", 8080) ∧
      ((run Membership.tableCall firstMember movedPeer).clients.get? "b").map Peer.baseUrl =
        some "http://10.0.0.2:8080" ∧
      ¬ Throughout Membership.tableCall Membership.TablesAgree firstMember movedPeer := by
  refine ⟨by decide +kernel, by decide +kernel, ?_⟩
  intro h
  have hlast := (h movedPeer (List.prefix_refl movedPeer)).addresses "b" _ _ rfl rfl
  exact absurd hlast (by decide +kernel)

end Moving

end Network
end Membrane
