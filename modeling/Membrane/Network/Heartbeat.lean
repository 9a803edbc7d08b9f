import Membrane.Network.Membership

/-!
# Heartbeats and failure detection

One loop asks every peer for a heartbeat and counts the calls that raise.  Another loop
removes the peers that missed too many.  A call that comes back empty is not counted,
and an unreachable peer makes the client come back empty.
-/

namespace Membrane
namespace Network

open Foundation Data

structure ClusterConfig where
  leaseTimeoutSec : ℚ
  failureSuspectThreshold : Nat
  failureRemoveThreshold : Nat
  lease_pos : 0 < leaseTimeoutSec
  suspect_pos : 1 ≤ failureSuspectThreshold
  remove_pos : 1 ≤ failureRemoveThreshold

inductive HeartbeatAnswer where
  | raised
  | empty
  | alive (report : Option HeartbeatReport) (roundTripMs : ℚ)

def HeartbeatAnswer.ofResult {json : Type} (read : json -> HeartbeatAnswer) :
    Except TransportError (Option json) -> HeartbeatAnswer
  | .error _ => .raised
  | .ok none => .empty
  | .ok (some value) => read value

/-- One round: the clock at its start, the clock when an answer is recorded, and the
answers by peer. -/
structure Round where
  now : ℚ
  recorded : String -> ℚ
  answer : String -> HeartbeatAnswer

def Round.Fails (r : Round) (nodeId : String) : Prop :=
  r.answer nodeId = .raised ∨ r.answer nodeId = .empty

def Round.misses (r : Round) (nodeId : String) : Nat :=
  match r.answer nodeId with
  | .raised => 1
  | _ => 0

def totalMisses (nodeId : String) (rounds : List Round) : Nat :=
  (rounds.map (fun r => r.misses nodeId)).sum

namespace Membership

/-!
# The heartbeat loop
-/

/-- Ask one peer for a heartbeat.  A report that cannot be read counts as a miss. -/
def beat (config : ClusterConfig) (r : Round) (m : Membership) (nodeId : String) :
    Membership :=
  match m.getClient nodeId with
  | none => m
  | some _ =>
    match r.answer nodeId with
    | .raised => m.recordMiss nodeId
    | .empty => m
    | .alive report roundTripMs =>
      match m.recordHeartbeat nodeId (r.now + config.leaseTimeoutSec) report
        (some roundTripMs) (r.recorded nodeId) with
      | (.ok _, recorded) => recorded
      | (.error _, recorded) => recorded.recordMiss nodeId

def heartbeatRound (config : ClusterConfig) (m : Membership) (r : Round) : Membership :=
  (((m.snapshot.map PeerInfo.nodeId).foldl (beat config r) m).evictExpiredLeases r.now).2

section Counting

variable (config : ClusterConfig) (r : Round) {m : Membership} {id nodeId : String}

theorem beat_others (m : Membership) (nodeId : String) :
    SameMembers m (m.beat config r nodeId) ∧
      forall id, id ≠ nodeId -> (m.beat config r nodeId).missed id = m.missed id := by
  have hmiss : forall id, id ≠ nodeId -> forall m : Membership,
      (m.recordMiss nodeId).missed id = m.missed id :=
    fun id hid m => by rw [recordMiss_missed, if_neg hid]
  unfold beat
  cases m.getClient nodeId with
  | none => exact ⟨SameMembers.refl m, fun _ _ => rfl⟩
  | some client =>
    cases r.answer nodeId with
    | raised => exact ⟨m.recordMiss_sameMembers nodeId, fun id hid => hmiss id hid m⟩
    | empty => exact ⟨SameMembers.refl m, fun _ _ => rfl⟩
    | alive report roundTripMs =>
      have hsame := m.recordHeartbeat_sameMembers nodeId (r.now + config.leaseTimeoutSec)
        report (some roundTripMs) (r.recorded nodeId)
      have hothers := fun id (hid : id ≠ nodeId) =>
        congrArg (Option.map PeerInfo.missedHeartbeats) (m.get?_recordHeartbeat_of_ne hid
          (r.now + config.leaseTimeoutSec) report (some roundTripMs) (r.recorded nodeId))
      simp only
      generalize m.recordHeartbeat nodeId _ _ _ _ = recorded at hsame hothers ⊢
      rcases recorded with ⟨_ | _, recorded⟩
      · exact ⟨hsame.trans (recorded.recordMiss_sameMembers nodeId),
          fun id hid => (hmiss id hid recorded).trans (hothers id hid)⟩
      · exact ⟨hsame, hothers⟩

theorem beat_missed (hclient : id ∈ m.clients) (hfails : r.Fails id) :
    (m.beat config r id).missed id = (m.missed id).map (fun n => n + r.misses id) := by
  rcases (Dict.mem_iff_exists_get? _ id).mp hclient with ⟨client, hget⟩
  unfold beat getClient Round.misses
  rw [hget]
  rcases hfails with hraised | hempty
  · rw [hraised]
    rw [recordMiss_missed, if_pos rfl]
  · rw [hempty]
    exact Option.map_id'.symm

theorem foldl_beat_sameMembers (ids : List String) (m : Membership) :
    SameMembers m (ids.foldl (beat config r) m) := by
  induction ids generalizing m with
  | nil => exact SameMembers.refl m
  | cons first rest ih => exact (beat_others config r m first).left.trans (ih _)

theorem foldl_beat_missed_of_not_mem {ids : List String} (h : ¬ id ∈ ids) (m : Membership) :
    (ids.foldl (beat config r) m).missed id = m.missed id := by
  induction ids generalizing m with
  | nil => rfl
  | cons first rest ih =>
    rw [List.mem_cons, not_or] at h
    rw [List.foldl_cons, ih h.right, (beat_others config r m first).right id h.left]

theorem foldl_beat_missed {ids : List String} (hnodup : ids.Nodup) (h : id ∈ ids)
    (hfails : r.Fails id) (hclient : id ∈ m.clients) :
    (ids.foldl (beat config r) m).missed id =
      (m.missed id).map (fun n => n + r.misses id) := by
  induction ids generalizing m with
  | nil => exact absurd h List.not_mem_nil
  | cons first rest ih =>
    rw [List.nodup_cons] at hnodup
    rw [List.foldl_cons]
    by_cases hid : id = first
    · subst hid
      rw [foldl_beat_missed_of_not_mem config r hnodup.left, beat_missed config r hclient
        hfails]
    · have hrest : id ∈ rest := (List.mem_cons.mp h).resolve_left hid
      have hothers := beat_others config r m first
      rw [ih hnodup.right hrest (by rw [hothers.left.rest]; exact hclient),
        hothers.right id hid]

theorem Sound.snapshot_ids (hm : m.Sound) :
    m.snapshot.map PeerInfo.nodeId = m.peers.keys := by
  unfold snapshot Dict.values
  rw [List.map_map]
  apply List.map_congr_left
  intro entry hentry
  exact hm.keyed entry.1 entry.2 ((m.peers.get?_eq_some_iff entry.1 entry.2).mpr hentry)

theorem heartbeatRound_sameMembers (m : Membership) :
    SameMembers m (m.heartbeatRound config r) :=
  (foldl_beat_sameMembers config r _ m).trans
    (evictExpiredLeases_sameCounts _ r.now).toSameMembers

theorem heartbeatRound_missed (hm : m.Sound) (hfails : r.Fails id) :
    (m.heartbeatRound config r).missed id =
      (m.missed id).map (fun n => n + r.misses id) := by
  unfold heartbeatRound
  rw [(evictExpiredLeases_sameCounts _ r.now).missed, hm.snapshot_ids]
  by_cases hmem : id ∈ m.peers
  · exact foldl_beat_missed config r m.peers.keys_nodup hmem hfails
      ((hm.clients id).mpr hmem)
  · rw [foldl_beat_missed_of_not_mem config r hmem, missed_eq_none_iff.mpr hmem]
    rfl

end Counting

/-!
# The failure detector
-/

/-- A strategy: the peer, its missed heartbeats, the votes against it and the number of
healthy nodes. -/
abbrev FailureDetector := String -> Nat -> Nat -> Nat -> Bool

def thresholdDetector (failureRemoveThreshold : Nat) : FailureDetector :=
  fun _ peerMissed _ _ => decide (failureRemoveThreshold ≤ peerMissed)

def defaultDetector (config : ClusterConfig) : FailureDetector :=
  thresholdDetector config.failureRemoveThreshold

def examine (config : ClusterConfig) (detector : FailureDetector)
    (found : List String × Membership) (p : PeerInfo) : List String × Membership :=
  if config.failureRemoveThreshold ≤ p.missedHeartbeats then
    if detector p.nodeId p.missedHeartbeats 0 (found.2.healthy.length + 1) then
      (found.1 ++ [p.nodeId], found.2)
    else found
  else if config.failureSuspectThreshold ≤ p.missedHeartbeats then
    (found.1, (found.2.markSuspect p.nodeId).2)
  else found

section Detection

variable [RingPoints]

/-- Remove peers one after the other.  An exception ends the pass. -/
def removeAll : List String -> Membership -> Membership
  | [], m => m
  | nodeId :: rest, m =>
    match m.remove nodeId with
    | (.error _, left) => left
    | (.ok _, left) => removeAll rest left

def detectorPass (config : ClusterConfig) (detector : FailureDetector) (m : Membership) :
    Membership :=
  let found := m.snapshot.foldl (examine config detector) ([], m)
  removeAll found.1 found.2

def step (config : ClusterConfig) (m : Membership) (r : Round) : Membership :=
  (m.heartbeatRound config r).detectorPass config (defaultDetector config)

end Detection

/-- The default detector collects the peers at the threshold and at most suspects the
others. -/
theorem foldl_examine (config : ClusterConfig) (peers : List PeerInfo)
    (found : List String × Membership) :
    (peers.foldl (examine config (defaultDetector config)) found).1 =
        found.1 ++ (peers.filter (fun p =>
          decide (config.failureRemoveThreshold ≤ p.missedHeartbeats))).map PeerInfo.nodeId ∧
      SameCounts found.2 (peers.foldl (examine config (defaultDetector config)) found).2 := by
  induction peers generalizing found with
  | nil =>
    exact ⟨(List.append_nil _).symm, SameCounts.refl found.2⟩
  | cons p rest ih =>
    rw [List.foldl_cons]
    rcases ih (examine config (defaultDetector config) found p) with ⟨hlist, hcounts⟩
    by_cases hreached : config.failureRemoveThreshold ≤ p.missedHeartbeats
    · have hexamined : examine config (defaultDetector config) found p =
          (found.1 ++ [p.nodeId], found.2) := by
        unfold examine defaultDetector thresholdDetector
        rw [if_pos hreached, if_pos (decide_eq_true hreached)]
      rw [hexamined] at hlist hcounts ⊢
      refine ⟨?_, hcounts⟩
      rw [hlist, List.filter_cons_of_pos (by simpa using hreached), List.append_assoc]
      rfl
    · have hexamined : (examine config (defaultDetector config) found p).1 = found.1 ∧
          SameCounts found.2 (examine config (defaultDetector config) found p).2 := by
        unfold examine
        split_ifs
        · exact ⟨rfl, found.2.markSuspect_sameCounts p.nodeId⟩
        · exact ⟨rfl, SameCounts.refl found.2⟩
      refine ⟨?_, hexamined.right.trans hcounts⟩
      rw [hlist, hexamined.left, List.filter_cons_of_neg (by simpa using hreached)]

def Keyed (m : Membership) : Prop :=
  forall id p, m.peers.get? id = some p -> p.nodeId = id

theorem Keyed.mem_values_iff {m : Membership} (hm : m.Keyed) {id : String} {p : PeerInfo} :
    p ∈ m.peers.values ∧ p.nodeId = id <-> m.peers.get? id = some p := by
  rw [Dict.mem_values_iff]
  constructor
  · rintro ⟨⟨key, hkey⟩, rfl⟩
    rw [hm key p hkey]
    exact hkey
  · intro hp
    exact ⟨⟨id, hp⟩, hm id p hp⟩

theorem Keyed.mem_ids_iff {m : Membership} (hm : m.Keyed) (listed : PeerInfo -> Bool)
    {id : String} :
    id ∈ (m.peers.values.filter listed).map PeerInfo.nodeId <->
      exists p, m.peers.get? id = some p ∧ listed p = true := by
  simp only [List.mem_map, List.mem_filter, ← hm.mem_values_iff, and_right_comm]

theorem Sound.mem_collected_iff {m : Membership} (hm : m.Sound) (threshold : Nat) (id : String) :
    id ∈ (m.snapshot.filter (fun p => decide (threshold ≤ p.missedHeartbeats))).map
        PeerInfo.nodeId <->
      exists n, m.missed id = some n ∧ threshold ≤ n := by
  rw [snapshot, Keyed.mem_ids_iff hm.keyed, missed]
  simp

section Removing

variable [RingHash] {m : Membership}

theorem removeAll_placed (hm : m.Placed) (ids : List String) :
    (removeAll ids m).Placed ∧ (removeAll ids m).nodeId = m.nodeId ∧
      forall id, (removeAll ids m).missed id = if id ∈ ids then none else m.missed id := by
  induction ids generalizing m with
  | nil => exact ⟨hm, rfl, fun id => by rfl⟩
  | cons first rest ih =>
    rcases remove_placed hm first with ⟨⟨known, hok⟩, hplaced, hlocal, hpeers⟩
    rcases ih hplaced with ⟨hrest, hnode, hmissed⟩
    have hremove : removeAll (first :: rest) m = removeAll rest (m.remove first).2 := by
      rcases hresult : m.remove first with ⟨result, left⟩
      rw [hresult] at hok
      cases hok
      rw [removeAll, hresult]
    rw [hremove]
    refine ⟨hrest, hnode.trans hlocal, fun id => ?_⟩
    rw [hmissed id]
    unfold missed
    rw [hpeers, Dict.get?_erase]
    by_cases hin : id ∈ rest
    · rw [if_pos hin, if_pos (List.mem_cons_of_mem first hin)]
    · simp only [List.mem_cons, hin, or_false, if_false]
      split_ifs <;> rfl

theorem detectorPass_placed (config : ClusterConfig) (hm : m.Placed) :
    (m.detectorPass config (defaultDetector config)).Placed ∧
      (m.detectorPass config (defaultDetector config)).nodeId = m.nodeId ∧
      forall id, (m.detectorPass config (defaultDetector config)).missed id =
        (m.missed id).bind (fun n =>
          if config.failureRemoveThreshold ≤ n then none else some n) := by
  rcases foldl_examine config m.snapshot ([], m) with ⟨hfound, hcounts⟩
  rcases removeAll_placed (hcounts.toSameMembers.placed hm) (m.snapshot.foldl (examine config
    (defaultDetector config)) ([], m)).1 with ⟨hplaced, hnode, hmissed⟩
  refine ⟨hplaced, hnode.trans hcounts.toSameMembers.nodeId_eq, fun id => ?_⟩
  refine (hmissed id).trans ?_
  rw [hfound, hcounts.missed, List.nil_append]
  have hcollected := hm.toSound.mem_collected_iff config.failureRemoveThreshold id
  cases hn : m.missed id with
  | none => exact ite_self none
  | some n =>
    show _ = if config.failureRemoveThreshold ≤ n then none else some n
    by_cases hreached : config.failureRemoveThreshold ≤ n
    · rw [if_pos hreached, if_pos (hcollected.mpr ⟨n, hn, hreached⟩)]
    · rw [if_neg hreached, if_neg]
      intro hmem
      rcases hcollected.mp hmem with ⟨other, hother, hle⟩
      cases hn.symm.trans hother
      exact hreached hle

/-!
# Rounds and passes in turn
-/

variable (config : ClusterConfig) {id : String}

theorem step_missed (hm : m.Placed) {r : Round} (hfails : r.Fails id) :
    (m.step config r).missed id = (m.missed id).bind (fun n =>
      if config.failureRemoveThreshold ≤ n + r.misses id then none
      else some (n + r.misses id)) := by
  have hround := (heartbeatRound_sameMembers config r m).placed hm
  refine ((detectorPass_placed config hround).right.right id).trans ?_
  rw [heartbeatRound_missed config r hm.toSound hfails]
  cases m.missed id <;> rfl

theorem step_placed (hm : m.Placed) (r : Round) :
    (m.step config r).Placed ∧ (m.step config r).nodeId = m.nodeId := by
  have hsame := heartbeatRound_sameMembers config r m
  rcases detectorPass_placed config (hsame.placed hm) with ⟨hplaced, hnode, _⟩
  exact ⟨hplaced, hnode.trans hsame.nodeId_eq⟩

theorem run_placed (hm : m.Placed) (rounds : List Round) :
    (run (step config) m rounds).Placed ∧
      (run (step config) m rounds).nodeId = m.nodeId := by
  have halong : Along (step config) (fun _ _ => True) m rounds :=
    along_of_forall (fun _ _ => trivial) m rounds
  apply run_of_along (fun last => last.Placed ∧ last.nodeId = m.nodeId) _ ⟨hm, rfl⟩ halong
  intro last r hlast _
  rcases step_placed config hlast.left r with ⟨hplaced, hnode⟩
  exact ⟨hplaced, hnode.trans hlast.right⟩

/-- The misses of the rounds add up until they reach the threshold, and then the peer
has gone. -/
theorem run_missed (hm : m.Placed) {rounds : List Round} (hne : rounds ≠ [])
    (hfails : forall r, r ∈ rounds -> r.Fails id) :
    (run (step config) m rounds).missed id = (m.missed id).bind (fun n =>
      if config.failureRemoveThreshold ≤ n + totalMisses id rounds then none
      else some (n + totalMisses id rounds)) := by
  induction rounds generalizing m with
  | nil => exact absurd rfl hne
  | cons r rest ih =>
    have hstep := step_missed config hm (hfails r List.mem_cons_self)
    have htotal : totalMisses id (r :: rest) = r.misses id + totalMisses id rest :=
      List.sum_cons
    show (run (step config) (m.step config r) rest).missed id = _
    cases rest with
    | nil =>
      rw [htotal]
      exact hstep
    | cons next rest =>
      rw [ih (step_placed config hm r).left (List.cons_ne_nil _ _)
        (fun other hother => hfails other (List.mem_cons_of_mem r hother)), hstep, htotal]
      cases m.missed id with
      | none => rfl
      | some n =>
        simp only [Option.bind_some]
        by_cases hreached : config.failureRemoveThreshold ≤ n + r.misses id
        · rw [if_pos hreached, if_pos (by omega)]
          rfl
        · rw [if_neg hreached, Option.bind_some, Nat.add_assoc]

variable {config}

/-- Calls that come back empty leave a peer where it is, however many they are. -/
theorem run_of_empty (hm : m.Placed) {p : PeerInfo} (hp : m.peers.get? id = some p)
    (hbelow : p.missedHeartbeats < config.failureRemoveThreshold) {rounds : List Round}
    (hempty : forall r, r ∈ rounds -> r.answer id = .empty) :
    id ∈ (run (step config) m rounds).peers := by
  by_cases hne : rounds = []
  · subst hne
    exact Dict.mem_of_get? hp
  have htotal : totalMisses id rounds = 0 := by
    unfold totalMisses
    rw [List.map_congr_left (fun r hr => show r.misses id = 0 by
      unfold Round.misses
      rw [hempty r hr])]
    simp
  have hmissed := run_missed config hm hne (fun r hr => Or.inr (hempty r hr))
  unfold missed at hmissed
  rw [hp, Option.map_some, Option.bind_some, htotal, Nat.add_zero, if_neg (not_le.mpr hbelow),
    Option.map_eq_some_iff] at hmissed
  rcases hmissed with ⟨last, hlast, _⟩
  exact Dict.mem_of_get? hlast

/-- A peer that does not answer is removed within the threshold's number of rounds exactly
when its count and the rounds that raised add up to the threshold. -/
theorem run_absent_iff (hm : m.Placed) {p : PeerInfo} (hp : m.peers.get? id = some p)
    {rounds : List Round} (hlength : rounds.length = config.failureRemoveThreshold)
    (hfails : forall r, r ∈ rounds -> r.Fails id) :
    (run (step config) m rounds).Absent id <->
      config.failureRemoveThreshold ≤ p.missedHeartbeats + totalMisses id rounds := by
  have hne : rounds ≠ [] := by
    rintro rfl
    have hpos := config.remove_pos
    rw [← hlength] at hpos
    exact absurd hpos (by decide)
  have hlocal : id ≠ m.nodeId := by
    rintro rfl
    exact hm.remote (Dict.mem_of_get? hp)
  have hmissed := run_missed config hm hne hfails
  rcases run_placed config hm rounds with ⟨hplaced, hnode⟩
  unfold missed at hmissed
  rw [hp, Option.map_some, Option.bind_some] at hmissed
  constructor
  · intro habsent
    by_contra hreached
    rw [if_neg hreached] at hmissed
    rcases Option.map_eq_some_iff.mp hmissed with ⟨last, hlast, _⟩
    exact habsent.peers (Dict.mem_of_get? hlast)
  · intro hreached
    rw [if_pos hreached, Option.map_eq_none_iff, Dict.get?_eq_none_iff] at hmissed
    exact hplaced.absent_of_not_mem (by rw [hnode]; exact hlocal) hmissed

end Removing

end Membership

/-!
# A peer that is gone
-/

section Gone

@[reducible] def RingHash.byName : RingHash where
  point nodeId _ := nodeId
  content s := s
  point_ne _ _ h := h

attribute [local instance] RingHash.byName Tracing.off JsonCodec.unreadable

def defaultConfig : ClusterConfig where
  leaseTimeoutSec := 30
  failureSuspectThreshold := 2
  failureRemoveThreshold := 4
  lease_pos := by decide +kernel
  suspect_pos := by decide
  remove_pos := by decide

def lonelyNode : Membership :=
  Membership.create "a" { scheme := "http", bearerToken := "" } (Ring.create 150)
    { hashRing := Ring.create 150, replicaCount := 2, primaryMap := Dict.empty
      replicaMap := Dict.empty }
    { nodes := ∅, fragmentLocations := Dict.empty, maxEntries := 200000 }

def pairOfNodes : Membership :=
  (lonelyNode.add "b" "10.0.0.2" 8080 "" 0).2

theorem pairOfNodes_placed : pairOfNodes.Placed :=
  Membership.add_placed
    (Membership.create_placed "a" _ 150 rfl (Ring.create_sound 150) (by decide) _) "b"
    "10.0.0.2" 8080 "" 0

def refusing : Surroundings Unit where
  allowTime := 0
  deadline := none
  attemptTime _ := 0
  answer _ request :=
    .error (.network (.transportFailure request.method "10.0.0.2" "refused"))
  random _ := 0
  retryTime _ := 0
  failureTime := 0

def roundOf (answer : HeartbeatAnswer) : Round where
  now := 0
  recorded _ := 0
  answer _ := answer

def unreachableAnswer : HeartbeatAnswer :=
  HeartbeatAnswer.ofResult (fun _ => .alive none 1) (quickPeer.heartbeat refusing).result

theorem raisingPeer_removed :
    (run (Membership.step defaultConfig) pairOfNodes
      (List.replicate 4 (roundOf .raised))).Absent "b" := by
  have hp : pairOfNodes.peers.get? "b" =
      some (PeerInfo.joined "b" "10.0.0.2" 8080 "" 0) := rfl
  apply (Membership.run_absent_iff pairOfNodes_placed hp rfl _).mpr (by decide)
  intro r hr
  rw [List.eq_of_mem_replicate hr]
  exact Or.inl rfl

theorem unreachablePeer_not_removed :
    (roundOf unreachableAnswer).Fails "b" ∧ forall n,
      ¬ (run (Membership.step defaultConfig) pairOfNodes
        (List.replicate n (roundOf unreachableAnswer))).Absent "b" := by
  have hempty : unreachableAnswer = .empty := by
    unfold unreachableAnswer
    rfl
  refine ⟨Or.inr hempty, fun n habsent => habsent.peers ?_⟩
  have hp : pairOfNodes.peers.get? "b" =
      some (PeerInfo.joined "b" "10.0.0.2" 8080 "" 0) := rfl
  apply Membership.run_of_empty pairOfNodes_placed hp (by decide)
  intro r hr
  rw [List.eq_of_mem_replicate hr]
  exact hempty

end Gone

end Network
end Membrane
