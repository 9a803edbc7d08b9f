import Membrane.Network.MembershipTables
import Membrane.Transport.ClusterOps

/-!
# Verified identities of peers

A peer that joins with a client certificate is recorded with the common name of the
certificate.  Other members pass the addresses of their peers on in gossip messages.
-/

namespace Membrane
namespace Transport

open Foundation Data Store Network

/-!
# Gossip messages
-/

structure PeerEndpoint where
  nodeId : String
  host : String
  port : Int
  healthy : Bool

structure GossipMessage where
  state : GossipState
  peers : List PeerEndpoint
  fragmentLocations : Dict String (List String)

structure Member where
  membership : Membership
  tombstones : TombstoneTable

/-- A location that is recorded moves to the end; the oldest ones are forgotten. -/
def recordFragmentLocation (r : Registry) (contentHash nodeId : String) : Registry :=
  match r.fragmentLocations.get? contentHash with
  | some holders =>
    { r with
      fragmentLocations := (r.fragmentLocations.erase contentHash).set contentHash
        (insert nodeId holders) }
  | none =>
    let recorded := r.fragmentLocations.set contentHash {nodeId}
    { r with fragmentLocations := recorded.dropOldest (recorded.size - r.maxEntries) }

def recordLocations (r : Registry) (message : GossipMessage) : Registry :=
  message.fragmentLocations.entries.foldl
    (fun r entry => entry.2.foldl (fun r nodeId => recordFragmentLocation r entry.1 nodeId) r) r

section Handling

variable [RingPoints]

/-- The peers of a message are added one after the other.  The clock is read for each of
them. -/
def addPeers (clock : PeerEndpoint -> ℚ) :
    List PeerEndpoint -> Membership -> Except RingError Unit × Membership
  | [], m => (.ok (), m)
  | ep :: rest, m =>
    if ep.nodeId ≠ m.nodeId then
      match m.add ep.nodeId ep.host ep.port "" (clock ep) with
      | (.error e, added) => (.error e, added)
      | (.ok _, added) => addPeers clock rest added
    else addPeers clock rest m

def Member.handle (s : Member) (message : Option GossipMessage)
    (clock : PeerEndpoint -> ℚ) : Except RingError Unit × Member :=
  match message with
  | none => (.ok (), s)
  | some message =>
    match addPeers clock message.peers s.membership with
    | (.error e, membership) => (.error e, { s with membership := membership })
    | (.ok _, membership) =>
      (.ok (),
        { membership :=
            { membership with directory := recordLocations membership.directory message }
          tombstones := handleGossip s.tombstones (some message.state) })

/-!
# Joins
-/

/-- The authenticator answers with the subject of the caller. -/
structure Authenticator where
  mtls : Bool
  authenticate : Dict String String -> Except String String

def cnScopePrefixes : List String := ["admin-", "write-", "read-"]

def cnMatchesNodeId (authenticator : Authenticator) (peerCn nodeId : String) : Bool :=
  !authenticator.mtls || decide (peerCn = nodeId) ||
    cnScopePrefixes.any (fun role => decide (peerCn = role ++ nodeId))

structure JoinRequest where
  nodeId : String
  host : String
  port : Int
  headers : Option (Dict String String)
  authenticator : Option Authenticator
  now : ℚ

inductive JoinResponse where
  | refused (status : Nat) (error : String)
  | accepted (peers : List PeerInfo) (seed : Option (String × String × Int))

def joiningCn (r : JoinRequest) : Except String String :=
  match r.authenticator, r.headers with
  | some authenticator, some headers =>
    match authenticator.authenticate headers with
    | .error message => .error message
    | .ok subject =>
      if cnMatchesNodeId authenticator subject r.nodeId then .ok subject
      else .error "CN does not match node_id"
  | _, _ => .ok ""

/-- A member that advertises an address names itself besides its peers. -/
def opJoin (cluster : Option Membership) (advertised : Option (String × Int))
    (r : JoinRequest) : Except RingError JoinResponse × Option Membership :=
  if r.nodeId = "" ∨ r.host = "" ∨ r.port = 0 then
    (.ok (.refused 200 "missing node_id, host, or port"), cluster)
  else
    match cluster with
    | none => (.ok (.refused 200 "cluster manager not enabled"), none)
    | some m =>
      match joiningCn r with
      | .error message => (.ok (.refused 401 message), some m)
      | .ok peerCn =>
        match m.add r.nodeId r.host r.port peerCn r.now with
        | (.error e, added) => (.error e, some added)
        | (.ok _, added) =>
          (.ok (.accepted added.snapshot
            (advertised.map (fun own => (m.nodeId, own.1, own.2)))), some added)

inductive ClusterCall where
  | join (advertised : Option (String × Int)) (r : JoinRequest)
  | gossip (message : Option GossipMessage) (clock : PeerEndpoint -> ℚ)

def Member.call (s : Member) : ClusterCall -> Member
  | .join advertised r =>
    { s with membership := (opJoin (some s.membership) advertised r).2.getD s.membership }
  | .gossip message clock => (s.handle message clock).2

/-!
# What gossip leaves alone
-/

def Verified (m : Membership) (nodeId cn : String) : Prop :=
  cn ≠ "" ∧ exists p, m.peers.get? nodeId = some p ∧ p.peerCn = cn

/-- A gossip message neither clears nor replaces a recorded common name. -/
def KeepsIdentities (s : Member) : ClusterCall -> Prop
  | .join _ _ => True
  | .gossip message clock => forall nodeId cn, Verified s.membership nodeId cn ->
      Verified (s.handle message clock).2.membership nodeId cn

/-- No entry of a gossip message is about a peer that is recorded with a common name. -/
def NamesNoVerified (s : Member) : ClusterCall -> Prop
  | .join _ _ => True
  | .gossip none _ => True
  | .gossip (some message) _ => forall ep, ep ∈ message.peers ->
      ep.nodeId ≠ s.membership.nodeId -> forall cn, ¬ Verified s.membership ep.nodeId cn

theorem add_verified {m : Membership} {nodeId cn other host : String} {port : Int}
    {peerCn : String} {now : ℚ} (h : Verified m nodeId cn) (hne : nodeId ≠ other) :
    Verified (m.add other host port peerCn now).2 nodeId cn := by
  rcases h with ⟨hcn, p, hp, hrecorded⟩
  refine ⟨hcn, p, ?_, hrecorded⟩
  unfold Membership.add
  split_ifs with hlocal hmem
  · exact hp
  · rw [Dict.get?_modify, if_neg hne]
    exact hp
  · rw [Dict.get?_set, if_neg hne]
    exact hp

theorem add_nodeId {m : Membership} (other host : String) (port : Int) (peerCn : String)
    (now : ℚ) : (m.add other host port peerCn now).2.nodeId = m.nodeId := by
  unfold Membership.add
  split_ifs with hlocal hmem
  · rfl
  · rfl
  · rfl

theorem addPeers_verified (clock : PeerEndpoint -> ℚ) {nodeId cn : String}
    (peers : List PeerEndpoint) {m : Membership} (h : Verified m nodeId cn)
    (hpeers : forall ep, ep ∈ peers -> ep.nodeId ≠ m.nodeId -> nodeId ≠ ep.nodeId) :
    Verified (addPeers clock peers m).2 nodeId cn := by
  induction peers generalizing m with
  | nil => exact h
  | cons ep rest ih =>
    rw [addPeers]
    split_ifs with hlocal
    · have hadded : Verified (m.add ep.nodeId ep.host ep.port "" (clock ep)).2 nodeId cn :=
        add_verified h (hpeers ep List.mem_cons_self hlocal)
      have hsame := add_nodeId (m := m) ep.nodeId ep.host ep.port "" (clock ep)
      rcases hadd : m.add ep.nodeId ep.host ep.port "" (clock ep) with ⟨result, added⟩
      rw [hadd] at hadded hsame
      cases result with
      | error e => exact hadded
      | ok _ =>
        apply ih hadded
        intro later hlater hne
        rw [hsame] at hne
        exact hpeers later (List.mem_cons_of_mem ep hlater) hne
    · exact ih h (fun later hlater => hpeers later (List.mem_cons_of_mem ep hlater))

theorem handle_keepsIdentities {s : Member} {c : ClusterCall} (h : NamesNoVerified s c) :
    KeepsIdentities s c := by
  cases c with
  | join advertised r => trivial
  | gossip message clock =>
    intro nodeId cn hverified
    cases message with
    | none => exact hverified
    | some message =>
      have hadded := addPeers_verified clock message.peers hverified (by
        intro ep hep hlocal heq
        rw [heq] at hverified
        exact h ep hep hlocal cn hverified)
      rw [Member.handle]
      rcases hpeers : addPeers clock message.peers s.membership with ⟨result, membership⟩
      rw [hpeers] at hadded
      cases result with
      | error e | ok _ => exact hadded

/-- In every run of joins and gossip messages that name no verified peer, no gossip message
clears or replaces a recorded common name. -/
theorem run_keepsIdentities (s : Member) (calls : List ClusterCall)
    (h : Along Member.call NamesNoVerified s calls) :
    Along Member.call KeepsIdentities s calls :=
  along_of_along (fun _ => True) (fun _ _ _ _ => trivial)
    (fun _ _ _ hnames => handle_keepsIdentities hnames) trivial h

end Handling

/-!
# A verified peer in a gossip message
-/

section Clearing

attribute [local instance] RingDigest.verbatim

def verifyingJoin : JoinRequest where
  nodeId := "b"
  host := "10.0.0.2"
  port := 8080
  headers := some Dict.empty
  authenticator := some { mtls := true, authenticate := fun _ => .ok "admin-b" }
  now := 1

def peersMessage (nodeId : String) : GossipMessage where
  state := { nodeId := "c", fragmentTombstones := Dict.empty }
  peers := [{ nodeId := nodeId, host := "10.0.0.2", port := 8080, healthy := true }]
  fragmentLocations := Dict.empty

def firstSharing : Member :=
  { membership := firstMember, tombstones := TombstoneTable.create }

theorem otherPeer_keepsIdentities :
    Along Member.call KeepsIdentities firstSharing
      [.join none verifyingJoin, .gossip (some (peersMessage "d")) (fun _ => 2)] := by
  apply run_keepsIdentities
  refine ⟨trivial, ?_, trivial⟩
  intro ep hep _ cn hverified
  rcases hverified with ⟨_, p, hp, _⟩
  rw [List.mem_singleton.mp hep] at hp
  cases hp

theorem verifiedPeer_cleared :
    ((run Member.call firstSharing [.join none verifyingJoin]).membership.peers.get? "b").map
        PeerInfo.peerCn = some "admin-b" ∧
      ((run Member.call firstSharing [.join none verifyingJoin,
        .gossip (some (peersMessage "b")) (fun _ => 2)]).membership.peers.get? "b").map
        PeerInfo.peerCn = some "" ∧
      ¬ Along Member.call KeepsIdentities firstSharing
        [.join none verifyingJoin, .gossip (some (peersMessage "b")) (fun _ => 2)] := by
  refine ⟨by decide +kernel, by decide +kernel, ?_⟩
  intro h
  have hverified : Verified (run Member.call firstSharing
      [.join none verifyingJoin]).membership "b" "admin-b" :=
    ⟨by decide, _, rfl, by decide +kernel⟩
  rcases h.right.left "b" "admin-b" hverified with ⟨_, p, hp, hcn⟩
  cases hp
  exact absurd hcn (by decide +kernel)

end Clearing

end Transport
end Membrane
