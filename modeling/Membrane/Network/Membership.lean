import Membrane.Network.Peer
import Membrane.Network.Ring

/-!
# Cluster membership

The peers a node knows, their HTTP clients, the ring and the shard table change
together when a peer joins or leaves.  Heartbeats and missed heartbeats change only the
record of the peer.
-/

namespace Membrane
namespace Network

open Foundation Data

structure PeerInfo where
  nodeId : String
  host : String
  port : Int
  lastHeartbeat : ℚ
  healthy : Bool
  suspect : Bool
  missedHeartbeats : Nat
  clusterEpoch : Int
  peerCn : String
  leaseUntil : ℚ
  latencyMs : ℚ
  memoryPressure : ℚ
  gpuLoad : ℚ
  region : String
  role : String

def PeerInfo.joined (nodeId host : String) (port : Int) (peerCn : String) (now : ℚ) :
    PeerInfo where
  nodeId := nodeId
  host := host
  port := port
  lastHeartbeat := now
  healthy := true
  suspect := false
  missedHeartbeats := 0
  clusterEpoch := 0
  peerCn := peerCn
  leaseUntil := 0
  latencyMs := 0
  memoryPressure := 0
  gpuLoad := 0
  region := ""
  role := ""

/-!
# Clients
-/

structure PeerCredentials where
  scheme : String
  bearerToken : String

def peerUrl (credentials : PeerCredentials) (hostPort : String) : String :=
  if "://".toList <:+: hostPort.toList then hostPort
  else credentials.scheme ++ "://" ++ hostPort

def stripSlashes (s : String) : String :=
  String.ofList (s.toList.reverse.dropWhile (fun c => c = '/')).reverse

def Peer.connect (credentials : PeerCredentials) (host : String) (port : Int) : Peer :=
  Peer.create (stripSlashes (peerUrl credentials (host ++ ":" ++ toString port))) 5 3 1 ""
    credentials.bearerToken { failureThreshold := 5, coolDown := 30 }

structure Registry where
  nodes : Finset String
  fragmentLocations : Dict String (Finset String)
  maxEntries : Nat

def Registry.unregisterNode (r : Registry) (nodeId : String) : Bool × Registry :=
  if nodeId ∉ r.nodes then (false, r)
  else
    (true,
      { r with
        nodes := r.nodes.erase nodeId
        fragmentLocations := r.fragmentLocations.mapValues (fun nodes => nodes.erase nodeId) })

/-!
# Heartbeat reports
-/

/-- What a peer reports.  A value of the wrong kind raises when it is read. -/
structure HeartbeatReport where
  load : Except String ℚ
  gpuLoad : Except String ℚ
  region : Except String String
  role : String

def clamp (x : ℚ) : ℚ := min 1 (max 0 x)

def PeerInfo.takeReport (p : PeerInfo) (report : HeartbeatReport) :
    Except String Unit × PeerInfo :=
  match report.load with
  | .error e => (.error e, p)
  | .ok load =>
    let loaded := { p with memoryPressure := clamp load }
    match report.gpuLoad with
    | .error e => (.error e, loaded)
    | .ok gpuLoad =>
      let measured := { loaded with gpuLoad := clamp gpuLoad }
      match report.region with
      | .error e => (.error e, measured)
      | .ok region =>
        (.ok (), { measured with region := region, role := report.role })

def averageLatency (latencyMs : ℚ) : Option ℚ -> ℚ
  | none => latencyMs
  | some roundTripMs =>
    if latencyMs = 0 then roundTripMs else 4 / 5 * latencyMs + 1 / 5 * roundTripMs

def PeerInfo.refreshed (p : PeerInfo) (leaseUntil : ℚ) (roundTripMs : Option ℚ) (now : ℚ) :
    PeerInfo :=
  { p with
    lastHeartbeat := now
    missedHeartbeats := 0
    suspect := false
    healthy := true
    leaseUntil := if 0 < leaseUntil then leaseUntil else p.leaseUntil
    latencyMs := averageLatency p.latencyMs roundTripMs }

theorem PeerInfo.takeReport_nodeId (p : PeerInfo) (report : HeartbeatReport) :
    (p.takeReport report).2.nodeId = p.nodeId := by
  unfold takeReport
  cases report.load with
  | error e => rfl
  | ok load =>
    cases report.gpuLoad with
    | error e => rfl
    | ok gpuLoad =>
      cases report.region with
      | error e | ok region => rfl

/-!
# The membership table
-/

structure Membership where
  nodeId : String
  credentials : PeerCredentials
  ring : Ring
  shard : Shard
  directory : Registry
  peers : Dict String PeerInfo
  clients : Dict String Peer

namespace Membership

variable (m : Membership)

def snapshot : List PeerInfo := m.peers.values

def healthy : List PeerInfo := m.peers.values.filter (fun p => p.healthy)

def getClient (nodeId : String) : Option Peer := m.clients.get? nodeId

section Changes

variable [RingPoints]

def create (nodeId : String) (credentials : PeerCredentials) (ring : Ring) (shard : Shard)
    (directory : Registry) : Membership where
  nodeId := nodeId
  credentials := credentials
  ring := ring.addNode nodeId
  shard := { shard with hashRing := shard.hashRing.addNode nodeId }
  directory := directory
  peers := Dict.empty
  clients := Dict.empty

def add (nodeId host : String) (port : Int) (peerCn : String) (now : ℚ) :
    Except RingError Unit × Membership :=
  if nodeId = m.nodeId then (.ok (), m)
  else if nodeId ∈ m.peers then
    (.ok (),
      { m with
        peers := m.peers.modify nodeId (fun p =>
          { p with host := host, port := port, peerCn := peerCn }) })
  else
    let placed := m.shard.addNode nodeId
    (placed.1,
      { m with
        peers := m.peers.set nodeId (PeerInfo.joined nodeId host port peerCn now)
        clients := m.clients.set nodeId (Peer.connect m.credentials host port)
        ring := m.ring.addNode nodeId
        shard := placed.2 })

/-- The directory is only cleaned up if the shard table could be rebalanced. -/
def remove (nodeId : String) : Except RingError Bool × Membership :=
  if nodeId ∉ m.peers then (.ok false, m)
  else
    let placed := m.shard.removeNode nodeId
    let left : Membership :=
      { m with
        peers := m.peers.erase nodeId
        clients := m.clients.erase nodeId
        ring := m.ring.removeNode nodeId
        shard := placed.2 }
    match placed.1 with
    | .error e => (.error e, left)
    | .ok _ =>
      (.ok true, { left with directory := (m.directory.unregisterNode nodeId).2 })

end Changes

/-!
# Records of peers
-/

def update (nodeId : String) (change : PeerInfo -> PeerInfo) : Membership :=
  { m with peers := m.peers.modify nodeId change }

def recordMiss (nodeId : String) : Membership :=
  m.update nodeId (fun p => { p with missedHeartbeats := p.missedHeartbeats + 1 })

def recordHeartbeat (nodeId : String) (leaseUntil : ℚ) (report : Option HeartbeatReport)
    (roundTripMs : Option ℚ) (now : ℚ) : Except String Unit × Membership :=
  match m.peers.get? nodeId with
  | none => (.ok (), m)
  | some p =>
    let refreshed := p.refreshed leaseUntil roundTripMs now
    match report with
    | none => (.ok (), m.update nodeId (fun _ => refreshed))
    | some report =>
      ((refreshed.takeReport report).1,
        m.update nodeId (fun _ => (refreshed.takeReport report).2))

def markSuspect (nodeId : String) : Bool × Membership :=
  match m.peers.get? nodeId with
  | none => (false, m)
  | some p =>
    if p.suspect then (false, m)
    else (true, m.update nodeId (fun p => { p with suspect := true }))

def expireLease (now : ℚ) (flagged : List String × Membership) (entry : String × PeerInfo) :
    List String × Membership :=
  if 0 < entry.2.leaseUntil ∧ entry.2.healthy = true ∧ entry.2.leaseUntil < now then
    let marked := flagged.2.markSuspect entry.1
    (if marked.1 then flagged.1 ++ [entry.1] else flagged.1, marked.2)
  else flagged

def evictExpiredLeases (now : ℚ) : List String × Membership :=
  m.peers.entries.foldl (expireLease now) ([], m)

/-!
# What the tables have in common
-/

structure Sound (m : Membership) : Prop where
  keyed : forall id p, m.peers.get? id = some p -> p.nodeId = id
  remote : ¬ m.nodeId ∈ m.peers
  clients : forall id, id ∈ m.clients <-> id ∈ m.peers
  ring : forall id, id ∈ m.ring.nodeIds <-> id = m.nodeId ∨ id ∈ m.peers
  shard : forall id, id ∈ m.shard.hashRing.nodeIds <-> id = m.nodeId ∨ id ∈ m.peers
  virtualNodes : 0 < m.shard.hashRing.virtualNodes

variable {m} {m' : Membership}

structure SameMembers (m m' : Membership) : Prop where
  rest : m' = { m with peers := m'.peers }
  ids : forall id, (m'.peers.get? id).map PeerInfo.nodeId =
    (m.peers.get? id).map PeerInfo.nodeId

theorem SameMembers.refl (m : Membership) : SameMembers m m :=
  { rest := rfl, ids := fun _ => rfl }

section

variable (h : SameMembers m m')

include h

theorem SameMembers.trans {m'' : Membership} (h' : SameMembers m' m'') : SameMembers m m'' where
  rest := by
    rw [h'.rest, h.rest]
  ids id := (h'.ids id).trans (h.ids id)

theorem SameMembers.nodeId_eq : m'.nodeId = m.nodeId := by
  rw [h.rest]

theorem SameMembers.mem_iff (id : String) :
    id ∈ m'.peers <-> id ∈ m.peers := by
  have hid := h.ids id
  rw [← not_iff_not, ← Dict.get?_eq_none_iff, ← Dict.get?_eq_none_iff]
  constructor
  · intro hnone
    rw [hnone, Option.map_none, eq_comm, Option.map_eq_none_iff] at hid
    exact hid
  · intro hnone
    rw [hnone, Option.map_none, Option.map_eq_none_iff] at hid
    exact hid

theorem SameMembers.sound (hm : m.Sound) : m'.Sound where
  keyed id p hp := by
    have hid := h.ids id
    rw [hp, Option.map_some, eq_comm, Option.map_eq_some_iff] at hid
    rcases hid with ⟨old, hold, hsame⟩
    rw [← hsame]
    exact hm.keyed id old hold
  remote := by
    rw [h.mem_iff, h.rest]
    exact hm.remote
  clients id := by
    rw [h.mem_iff, h.rest]
    exact hm.clients id
  ring id := by
    rw [h.mem_iff, h.rest]
    exact hm.ring id
  shard id := by
    rw [h.mem_iff, h.rest]
    exact hm.shard id
  virtualNodes := by
    rw [h.rest]
    exact hm.virtualNodes

end

theorem update_sameMembers (m : Membership) (nodeId : String) (change : PeerInfo -> PeerInfo)
    (hchange : forall p, m.peers.get? nodeId = some p -> (change p).nodeId = p.nodeId) :
    SameMembers m (m.update nodeId change) where
  rest := rfl
  ids id := by
    show ((m.peers.modify nodeId change).get? id).map PeerInfo.nodeId = _
    rw [Dict.get?_modify]
    split_ifs with hid
    · rw [hid]
      cases hp : m.peers.get? nodeId with
      | none => rfl
      | some p => exact congrArg some (hchange p hp)
    · rfl

/-!
# Missed heartbeats
-/

def missed (m : Membership) (nodeId : String) : Option Nat :=
  (m.peers.get? nodeId).map PeerInfo.missedHeartbeats

theorem missed_eq_none_iff {id : String} : m.missed id = none <-> ¬ id ∈ m.peers := by
  unfold missed
  rw [Option.map_eq_none_iff, Dict.get?_eq_none_iff]

section

variable (m : Membership)

theorem missed_update (nodeId : String) (change : PeerInfo -> PeerInfo) (id : String) :
    (m.update nodeId change).missed id =
      if id = nodeId then (m.peers.get? nodeId).map (fun p => (change p).missedHeartbeats)
      else m.missed id := by
  show ((m.peers.modify nodeId change).get? id).map PeerInfo.missedHeartbeats = _
  rw [Dict.get?_modify]
  split_ifs
  · rw [Option.map_map]
    rfl
  · rfl

theorem recordMiss_sameMembers (nodeId : String) :
    SameMembers m (m.recordMiss nodeId) :=
  m.update_sameMembers nodeId _ (fun _ _ => rfl)

theorem recordMiss_missed (nodeId id : String) :
    (m.recordMiss nodeId).missed id =
      if id = nodeId then (m.missed id).map (fun n => n + 1) else m.missed id := by
  unfold recordMiss
  rw [missed_update]
  split_ifs with hid
  · rw [hid]
    unfold missed
    rw [Option.map_map]
    rfl
  · rfl

theorem recordHeartbeat_sameMembers (nodeId : String) (leaseUntil : ℚ)
    (report : Option HeartbeatReport) (roundTripMs : Option ℚ) (now : ℚ) :
    SameMembers m (m.recordHeartbeat nodeId leaseUntil report roundTripMs now).2 := by
  unfold recordHeartbeat
  cases hp : m.peers.get? nodeId with
  | none => exact SameMembers.refl m
  | some p =>
    cases report with
    | none =>
      apply m.update_sameMembers
      intro other hother
      cases hp.symm.trans hother
      rfl
    | some report =>
      apply m.update_sameMembers
      intro other hother
      cases hp.symm.trans hother
      exact PeerInfo.takeReport_nodeId _ report

end

variable {nodeId : String}

theorem get?_recordHeartbeat_of_ne (m : Membership) {id : String} (h : id ≠ nodeId)
    (leaseUntil : ℚ) (report : Option HeartbeatReport) (roundTripMs : Option ℚ) (now : ℚ) :
    (m.recordHeartbeat nodeId leaseUntil report roundTripMs now).2.peers.get? id =
      m.peers.get? id := by
  have hupdate : forall change, (m.update nodeId change).peers.get? id = m.peers.get? id := by
    intro change
    show (m.peers.modify nodeId change).get? id = _
    rw [Dict.get?_modify, if_neg h]
  unfold recordHeartbeat
  cases m.peers.get? nodeId with
  | none => rfl
  | some p =>
    cases report with
    | none | some report => exact hupdate _

structure SameCounts (m m' : Membership) : Prop extends SameMembers m m' where
  missed : forall id, m'.missed id = m.missed id

theorem SameCounts.refl (m : Membership) : SameCounts m m :=
  { toSameMembers := SameMembers.refl m, missed := fun _ => rfl }

theorem SameCounts.trans {m'' : Membership} (h : SameCounts m m') (h' : SameCounts m' m'') :
    SameCounts m m'' :=
  { toSameMembers := h.toSameMembers.trans h'.toSameMembers
    missed := fun id => (h'.missed id).trans (h.missed id) }

theorem markSuspect_sameCounts (m : Membership) (nodeId : String) :
    SameCounts m (m.markSuspect nodeId).2 := by
  unfold markSuspect
  cases m.peers.get? nodeId with
  | none => exact SameCounts.refl m
  | some p =>
    simp only
    split_ifs
    · exact SameCounts.refl m
    · refine
        { toSameMembers := m.update_sameMembers nodeId _ (fun _ _ => rfl)
          missed := fun id => ?_ }
      rw [missed_update]
      split_ifs with hid
      · rw [hid]
        rfl
      · rfl

theorem expireLease_sameCounts (now : ℚ) (flagged : List String × Membership)
    (entry : String × PeerInfo) :
    SameCounts flagged.2 (expireLease now flagged entry).2 := by
  unfold expireLease
  split_ifs
  · exact flagged.2.markSuspect_sameCounts entry.1
  · exact SameCounts.refl flagged.2

theorem foldl_expireLease_sameCounts (now : ℚ) (entries : List (String × PeerInfo))
    (flagged : List String × Membership) :
    SameCounts flagged.2 (entries.foldl (expireLease now) flagged).2 := by
  induction entries generalizing flagged with
  | nil => exact SameCounts.refl flagged.2
  | cons entry rest ih => exact (expireLease_sameCounts now flagged entry).trans (ih _)

theorem evictExpiredLeases_sameCounts (m : Membership) (now : ℚ) :
    SameCounts m (m.evictExpiredLeases now).2 :=
  foldl_expireLease_sameCounts now m.peers.entries ([], m)

/-!
# Joining and leaving
-/

theorem mem_erase_iff_of_mem_iff {ids : Finset String}
    (hids : forall id, id ∈ ids <-> id = m.nodeId ∨ id ∈ m.peers) (hne : nodeId ≠ m.nodeId)
    (id : String) : id ∈ ids.erase nodeId <-> id = m.nodeId ∨ id ∈ m.peers.erase nodeId := by
  rw [Finset.mem_erase, Dict.mem_erase, hids]
  constructor
  · rintro ⟨hid, rfl | hpeer⟩
    · exact Or.inl rfl
    · exact Or.inr ⟨hid, hpeer⟩
  · rintro (rfl | ⟨hid, hpeer⟩)
    · exact ⟨hne.symm, Or.inl rfl⟩
    · exact ⟨hid, Or.inr hpeer⟩

section Changing

variable [RingHash]

structure Placed (m : Membership) : Prop extends m.Sound where
  ringPoints : m.ring.Sound
  shardPoints : m.shard.hashRing.Sound

theorem create_placed (nodeId : String) (credentials : PeerCredentials) (virtualNodes : Nat)
    {shard : Shard} (hnodes : shard.hashRing.nodeIds = ∅) (hring : shard.hashRing.Sound)
    (hshard : 0 < shard.hashRing.virtualNodes) (directory : Registry) :
    (create nodeId credentials (Ring.create virtualNodes) shard directory).Placed := by
  have hids : forall (r : Ring), r.nodeIds = ∅ -> forall id,
      id ∈ (r.addNode nodeId).nodeIds <->
        id = nodeId ∨ id ∈ (Dict.empty : Dict String PeerInfo) := by
    intro r hempty id
    rw [Ring.addNode_nodeIds, hempty, Finset.mem_insert]
    exact or_congr_right ⟨fun h => absurd h (Finset.notMem_empty id),
      fun h => absurd h (Dict.not_mem_empty id)⟩
  exact
    { keyed := fun id p hp => by cases hp
      remote := Dict.not_mem_empty nodeId
      clients := fun id =>
        ⟨fun h => absurd h (Dict.not_mem_empty id), fun h => absurd h (Dict.not_mem_empty id)⟩
      ring := hids (Ring.create virtualNodes) rfl
      shard := hids shard.hashRing hnodes
      virtualNodes := by
        show 0 < (shard.hashRing.addNode nodeId).virtualNodes
        rw [Ring.addNode_virtualNodes]
        exact hshard
      ringPoints := Ring.addNode_sound (Ring.create_sound virtualNodes) (Ring.apart _ nodeId)
      shardPoints := Ring.addNode_sound hring (Ring.apart _ nodeId) }

theorem add_placed (hm : m.Placed) (nodeId host : String) (port : Int) (peerCn : String)
    (now : ℚ) : (m.add nodeId host port peerCn now).2.Placed := by
  unfold add
  by_cases hlocal : nodeId = m.nodeId
  · rw [if_pos hlocal]
    exact hm
  rw [if_neg hlocal]
  split_ifs
  · have hsame := m.update_sameMembers nodeId
      (fun p => { p with host := host, port := port, peerCn := peerCn }) (fun _ _ => rfl)
    exact
      { toSound := hsame.sound hm.toSound
        ringPoints := hm.ringPoints
        shardPoints := hm.shardPoints }
  · have hring :=
      (Shard.addNode_hashRing hm.shardPoints (Ring.apart _ nodeId) hm.virtualNodes).right
    refine
      { keyed := fun id p hp => ?_
        remote := ?_
        clients := fun id => ?_
        ring := fun id => ?_
        shard := fun id => ?_
        virtualNodes := ?_
        ringPoints := Ring.addNode_sound hm.ringPoints (Ring.apart _ nodeId)
        shardPoints := ?_ }
    · rw [Dict.get?_set] at hp
      split_ifs at hp with hid
      · cases hp
        exact hid.symm
      · exact hm.keyed id p hp
    · rw [Dict.mem_set, not_or]
      exact ⟨fun h => hlocal h.symm, hm.remote⟩
    · rw [Dict.mem_set, Dict.mem_set, hm.clients]
    · rw [Ring.addNode_nodeIds, Finset.mem_insert, Dict.mem_set, hm.ring, or_left_comm]
    · rw [hring, Ring.addNode_nodeIds, Finset.mem_insert, Dict.mem_set, hm.shard, or_left_comm]
    · rw [hring, Ring.addNode_virtualNodes]
      exact hm.virtualNodes
    · rw [hring]
      exact Ring.addNode_sound hm.shardPoints (Ring.apart _ nodeId)

theorem remove_of_mem (hmem : nodeId ∈ m.peers)
    (hok : (m.shard.removeNode nodeId).1 = .ok ()) :
    m.remove nodeId = (.ok true,
      { m with
        peers := m.peers.erase nodeId
        clients := m.clients.erase nodeId
        ring := m.ring.removeNode nodeId
        shard := (m.shard.removeNode nodeId).2
        directory := (m.directory.unregisterNode nodeId).2 }) := by
  unfold remove
  rw [if_neg (not_not.mpr hmem)]
  simp only [hok]

theorem remove_placed (hm : m.Placed) (nodeId : String) :
    (exists known, (m.remove nodeId).1 = .ok known) ∧ (m.remove nodeId).2.Placed ∧
      (m.remove nodeId).2.nodeId = m.nodeId ∧
      (m.remove nodeId).2.peers = m.peers.erase nodeId := by
  by_cases hmem : nodeId ∉ m.peers
  · unfold remove
    rw [if_pos hmem, Dict.erase_of_not_mem m.peers hmem]
    exact ⟨⟨false, rfl⟩, hm, rfl, rfl⟩
  have hne : nodeId ≠ m.nodeId := fun h => hmem (h ▸ hm.remote)
  rcases Shard.removeNode_hashRing hm.shardPoints (Ring.apart _ nodeId)
    ((hm.shard m.nodeId).mpr (Or.inl rfl)) hne.symm hm.virtualNodes with ⟨hok, hring⟩
  rw [remove_of_mem (not_not.mp hmem) hok]
  refine ⟨⟨true, rfl⟩, ?_, rfl, rfl⟩
  refine
    { keyed := fun id p hp => ?_
      remote := ?_
      clients := fun id => ?_
      ring := fun id => ?_
      shard := fun id => ?_
      virtualNodes := ?_
      ringPoints := Ring.removeNode_sound hm.ringPoints (Ring.apart _ nodeId)
      shardPoints := ?_ }
  · rw [Dict.get?_erase] at hp
    split_ifs at hp
    exact hm.keyed id p hp
  · rw [Dict.mem_erase]
    exact fun h => hm.remote h.right
  · rw [Dict.mem_erase, Dict.mem_erase, hm.clients]
  · rw [Ring.removeNode_nodeIds]
    exact mem_erase_iff_of_mem_iff hm.ring hne id
  · rw [hring, Ring.removeNode_nodeIds]
    exact mem_erase_iff_of_mem_iff hm.shard hne id
  · rw [hring, Ring.removeNode_virtualNodes]
    exact hm.virtualNodes
  · rw [hring]
    exact Ring.removeNode_sound hm.shardPoints (Ring.apart _ nodeId)

theorem SameMembers.placed (h : SameMembers m m') (hm : m.Placed) : m'.Placed where
  toSound := h.sound hm.toSound
  ringPoints := by
    rw [h.rest]
    exact hm.ringPoints
  shardPoints := by
    rw [h.rest]
    exact hm.shardPoints

structure Absent (m : Membership) (nodeId : String) : Prop where
  peers : ¬ nodeId ∈ m.peers
  clients : ¬ nodeId ∈ m.clients
  ring : nodeId ∉ m.ring.nodeIds
  ringPoints : forall key, m.ring.ring.get? key ≠ some nodeId
  shard : nodeId ∉ m.shard.hashRing.nodeIds
  shardPoints : forall key, m.shard.hashRing.ring.get? key ≠ some nodeId

theorem Placed.absent_of_not_mem (hm : m.Placed) (hne : nodeId ≠ m.nodeId)
    (h : ¬ nodeId ∈ m.peers) : m.Absent nodeId := by
  have hring : nodeId ∉ m.ring.nodeIds := by
    rw [hm.ring, not_or]
    exact ⟨hne, h⟩
  have hshard : nodeId ∉ m.shard.hashRing.nodeIds := by
    rw [hm.shard, not_or]
    exact ⟨hne, h⟩
  exact
    { peers := h
      clients := fun hclient => h ((hm.clients nodeId).mp hclient)
      ring := hring
      ringPoints := hm.ringPoints.no_point hring
      shard := hshard
      shardPoints := hm.shardPoints.no_point hshard }

end Changing

end Membership

end Network
end Membrane
