import Membrane.Network.MembershipTables
import Membrane.Network.Heartbeat
import Membrane.Transport.Ops

/-!
# Suspected peers and replica selection

A lease that runs out and a pass of the failure detector mark peers as suspect.  The
mark leaves the flag by which healthy peers are listed, and the write path takes its
replicas from that list.
-/

namespace Membrane
namespace Network
namespace Membership

open Foundation

/-!
# Marking
-/

theorem get?_markSuspect (m : Membership) (nodeId id : String) :
    (m.markSuspect nodeId).2.peers.get? id = (m.peers.get? id).map (fun p =>
      if id = nodeId then { p with suspect := true } else p) := by
  unfold markSuspect
  cases hp : m.peers.get? nodeId with
  | none =>
    by_cases hid : id = nodeId
    · rw [hid, hp]
      rfl
    · simp only [if_neg hid, Option.map_id']
  | some p =>
    simp only
    split
    · next hsuspect =>
        by_cases hid : id = nodeId
        · rw [hid, hp]
          simp only [Option.map_some, if_true]
          cases p
          simp only at hsuspect
          rw [hsuspect]
        · simp only [if_neg hid, Option.map_id']
    · show (m.peers.modify nodeId _).get? id = _
      rw [Dict.get?_modify]
      split
      · next hid => rw [hid]
      · next hid => rw [Option.map_id']

def markAll (m : Membership) (ids : List String) : Membership :=
  ids.foldl (fun m id => (m.markSuspect id).2) m

theorem get?_markAll (m : Membership) (ids : List String) (id : String) :
    (m.markAll ids).peers.get? id = (m.peers.get? id).map (fun p =>
      if id ∈ ids then { p with suspect := true } else p) := by
  induction ids generalizing m with
  | nil => simp only [markAll, List.foldl_nil, List.not_mem_nil, if_false, Option.map_id']
  | cons first rest ih =>
    have hnext := ih (m.markSuspect first).2
    show ((m.markSuspect first).2.markAll rest).peers.get? id = _
    rw [hnext, get?_markSuspect, Option.map_map]
    congr 1
    funext p
    show (if id ∈ rest then { (if id = first then { p with suspect := true } else p) with
        suspect := true } else if id = first then { p with suspect := true } else p) = _
    by_cases hfirst : id = first
    · rw [if_pos (List.mem_cons.mpr (Or.inl hfirst))]
      split <;> rfl
    · rw [if_neg hfirst]
      by_cases hrest : id ∈ rest
      · rw [if_pos hrest, if_pos (List.mem_cons_of_mem first hrest)]
      · rw [if_neg hrest, if_neg (fun h => (List.mem_cons.mp h).elim hfirst hrest)]

/-!
# Lease scans and detector passes
-/

def LeaseOver (now : ℚ) (p : PeerInfo) : Prop :=
  0 < p.leaseUntil ∧ p.healthy = true ∧ p.leaseUntil < now

instance (now : ℚ) (p : PeerInfo) : Decidable (LeaseOver now p) :=
  inferInstanceAs (Decidable (0 < p.leaseUntil ∧ p.healthy = true ∧ p.leaseUntil < now))

/-- The peer missed enough heartbeats to be suspected and too few to be removed. -/
def Lagging (config : ClusterConfig) (p : PeerInfo) : Prop :=
  p.missedHeartbeats < config.failureRemoveThreshold ∧
    config.failureSuspectThreshold ≤ p.missedHeartbeats

instance (config : ClusterConfig) (p : PeerInfo) : Decidable (Lagging config p) :=
  inferInstanceAs (Decidable (_ ∧ _))

/-- A pass that marks the items that are due. -/
theorem foldl_marks {iota : Type} {step : List String × Membership -> iota ->
      List String × Membership} {due : iota -> Prop} [DecidablePred due] {name : iota -> String}
    (hstep : forall found i, (step found i).2 =
      if due i then (found.2.markSuspect (name i)).2 else found.2)
    (items : List iota) (found : List String × Membership) :
    (items.foldl step found).2 =
      found.2.markAll ((items.filter (fun i => due i)).map name) := by
  induction items generalizing found with
  | nil => rfl
  | cons i rest ih =>
    rw [List.foldl_cons, ih, hstep]
    by_cases hdue : due i
    · rw [if_pos hdue, List.filter_cons_of_pos (by simpa using hdue)]
      rfl
    · rw [if_neg hdue, List.filter_cons_of_neg (by simpa using hdue)]

theorem expireLease_marks (now : ℚ) (flagged : List String × Membership)
    (entry : String × PeerInfo) : (expireLease now flagged entry).2 =
      if LeaseOver now entry.2 then (flagged.2.markSuspect entry.1).2 else flagged.2 := by
  unfold expireLease
  by_cases hover : LeaseOver now entry.2
  · rw [if_pos hover]
    exact congrArg Prod.snd (if_pos hover)
  · rw [if_neg hover]
    exact congrArg Prod.snd (if_neg hover)

theorem get?_evictExpiredLeases (m : Membership) (now : ℚ) (id : String) :
    (m.evictExpiredLeases now).2.peers.get? id = (m.peers.get? id).map (fun p =>
      if LeaseOver now p then { p with suspect := true } else p) := by
  unfold evictExpiredLeases
  rw [foldl_marks (expireLease_marks now), get?_markAll]
  cases hp : m.peers.get? id with
  | none => rfl
  | some p =>
    have hmem : id ∈ (m.peers.entries.filter (fun entry => LeaseOver now entry.2)).map
        Prod.fst <-> LeaseOver now p :=
      (m.peers.mem_filter (fun _ p => LeaseOver now p) id).trans (by simp [hp])
    simp only [Option.map_some, hmem]

section Examining

variable (config : ClusterConfig) (detector : FailureDetector)

theorem examine_marks (found : List String × Membership) (p : PeerInfo) :
    (examine config detector found p).2 =
      if Lagging config p then (found.2.markSuspect p.nodeId).2 else found.2 := by
  unfold examine
  by_cases hremove : config.failureRemoveThreshold ≤ p.missedHeartbeats
  · have hlagging : ¬ Lagging config p := fun h => absurd h.left (not_lt.mpr hremove)
    rw [if_pos hremove, if_neg hlagging]
    split <;> rfl
  · have hlagging : Lagging config p <->
        config.failureSuspectThreshold ≤ p.missedHeartbeats :=
      and_iff_right (not_le.mp hremove)
    simp only [if_neg hremove, hlagging]
    split <;> rfl

theorem mem_foldl_examine {peers : List PeerInfo} {found : List String × Membership}
    {id : String} (h : id ∈ (peers.foldl (examine config detector) found).1) :
    id ∈ found.1 ∨ exists p, p ∈ peers ∧ p.nodeId = id ∧
      config.failureRemoveThreshold ≤ p.missedHeartbeats := by
  induction peers generalizing found with
  | nil => exact Or.inl h
  | cons p rest ih =>
    rcases ih h with hin | ⟨other, hother, hrest⟩
    · unfold examine at hin
      split_ifs at hin with hremove
      · rcases List.mem_append.mp hin with hin | hin
        · exact Or.inl hin
        · exact Or.inr ⟨p, List.mem_cons_self, (List.mem_singleton.mp hin).symm, hremove⟩
      · exact Or.inl hin
      · exact Or.inl hin
      · exact Or.inl hin
    · exact Or.inr ⟨other, List.mem_cons_of_mem p hother, hrest⟩

end Examining

theorem get?_examined {m : Membership} (hm : m.Keyed) (config : ClusterConfig)
    (detector : FailureDetector) (id : String) :
    (m.snapshot.foldl (examine config detector) ([], m)).2.peers.get? id =
      (m.peers.get? id).map (fun p =>
        if Lagging config p then { p with suspect := true } else p) := by
  rw [foldl_marks (examine_marks config detector), get?_markAll]
  cases hp : m.peers.get? id with
  | none => rfl
  | some p =>
    have hmem : id ∈ (m.snapshot.filter (fun p => Lagging config p)).map PeerInfo.nodeId <->
        Lagging config p := by
      rw [snapshot, hm.mem_ids_iff, hp]
      simp
    simp only [Option.map_some, hmem]

section Passes

variable [RingPoints]

theorem get?_remove (m : Membership) (nodeId id : String) :
    (m.remove nodeId).2.peers.get? id = if id = nodeId then none else m.peers.get? id := by
  by_cases hmem : nodeId ∈ m.peers
  · rw [(remove_fields hmem).right.right.left, Dict.get?_erase]
  · rw [remove_of_not_mem hmem]
    split
    · next hid =>
        rw [hid]
        exact (Dict.get?_eq_none_iff _ _).mpr hmem
    · rfl

theorem get?_removeAll (ids : List String) (m : Membership) (id : String) :
    ((removeAll ids m).peers.get? id = none ∨
        (removeAll ids m).peers.get? id = m.peers.get? id) ∧
      (¬ id ∈ ids -> (removeAll ids m).peers.get? id = m.peers.get? id) := by
  induction ids generalizing m with
  | nil => exact ⟨Or.inr rfl, fun _ => rfl⟩
  | cons first rest ih =>
    have hfirst := get?_remove m first id
    rw [removeAll]
    rcases hremoved : m.remove first with ⟨result, left⟩
    rw [hremoved] at hfirst
    cases result with
    | error e =>
      constructor
      · rw [hfirst]
        split
        · exact Or.inl rfl
        · exact Or.inr rfl
      · intro hid
        rw [hfirst, if_neg (fun h => hid (List.mem_cons.mpr (Or.inl h)))]
    | ok known =>
      rcases ih left with ⟨hleft, hkept⟩
      constructor
      · rcases hleft with hnone | hsame
        · exact Or.inl hnone
        · rw [hsame, hfirst]
          split
          · exact Or.inl rfl
          · exact Or.inr rfl
      · intro hid
        rw [hkept (fun h => hid (List.mem_cons_of_mem first h)), hfirst,
          if_neg (fun h => hid (List.mem_cons.mpr (Or.inl h)))]

theorem get?_detectorPass {m : Membership} (hm : m.Keyed) (config : ClusterConfig)
    (detector : FailureDetector) (id : String) :
    ((m.detectorPass config detector).peers.get? id = none ∨
        (m.detectorPass config detector).peers.get? id = (m.peers.get? id).map (fun p =>
          if Lagging config p then { p with suspect := true } else p)) ∧
      forall p, m.peers.get? id = some p -> Lagging config p ->
        (m.detectorPass config detector).peers.get? id = some { p with suspect := true } := by
  rcases get?_removeAll (m.snapshot.foldl (examine config detector) ([], m)).1
    (m.snapshot.foldl (examine config detector) ([], m)).2 id with ⟨hleft, hkept⟩
  rw [get?_examined hm] at hleft hkept
  refine ⟨hleft, fun p hp hlagging => ?_⟩
  rw [hp, Option.map_some, if_pos hlagging] at hkept
  apply hkept
  intro hcollected
  rcases mem_foldl_examine config detector hcollected with
    hnone | ⟨other, hother, hid, hmissed⟩
  · cases hnone
  · have hsame := hp.symm.trans (hm.mem_values_iff.mp ⟨hother, hid⟩)
    rw [← Option.some.inj hsame] at hmissed
    exact absurd hlagging.left (not_lt.mpr hmissed)

end Passes

theorem mem_healthy_ids {m : Membership} (hm : m.Keyed) {id : String} :
    id ∈ m.healthy.map PeerInfo.nodeId <->
      exists p, m.peers.get? id = some p ∧ p.healthy = true :=
  hm.mem_ids_iff PeerInfo.healthy

/-!
# Events
-/

inductive HealthEvent where
  | heartbeat (nodeId : String) (leaseUntil : ℚ) (report : Option HeartbeatReport)
      (roundTripMs : Option ℚ) (now : ℚ)
  | miss (nodeId : String)
  | leaseScan (now : ℚ)
  | detect (config : ClusterConfig) (detector : FailureDetector)

def HealthEvent.answers : HealthEvent -> Set String
  | .heartbeat nodeId _ _ _ _ => {nodeId}
  | _ => ∅

section Events

variable [RingPoints]

def handle (m : Membership) : HealthEvent -> Membership
  | .heartbeat nodeId leaseUntil report roundTripMs now =>
    (m.recordHeartbeat nodeId leaseUntil report roundTripMs now).2
  | .miss nodeId => m.recordMiss nodeId
  | .leaseScan now => (m.evictExpiredLeases now).2
  | .detect config detector => m.detectorPass config detector

def newlySuspect (m m' : Membership) : Set String :=
  { id | exists p p', m.peers.get? id = some p ∧ m'.peers.get? id = some p' ∧
    p.suspect = false ∧ p'.suspect = true }

structure Watched where
  membership : Membership
  suspected : Set String

def Watched.next (w : Watched) (e : HealthEvent) : Watched where
  membership := w.membership.handle e
  suspected := (w.suspected ∪ newlySuspect w.membership (w.membership.handle e)) \ e.answers

def MarksUnhealthy (m : Membership) : HealthEvent -> Prop
  | .heartbeat _ _ _ _ _ => True
  | .miss _ => True
  | .leaseScan now => forall id p, m.peers.get? id = some p -> p.suspect = false ->
      ¬ LeaseOver now p
  | .detect config _ => forall id p, m.peers.get? id = some p -> p.suspect = false ->
      p.healthy = true -> ¬ Lagging config p

/-!
# What an event does to a record
-/

omit [RingPoints] in
theorem record_of_marked {m : Membership} {id : String} {p' : PeerInfo}
    {due : PeerInfo -> Prop} [DecidablePred due] {safe : Prop}
    (h : (m.peers.get? id).map (fun p =>
      if due p then { p with suspect := true } else p) = some p')
    (hdue : forall p, m.peers.get? id = some p -> due p -> safe -> p.suspect = false ->
      p.healthy = false) :
    exists p, m.peers.get? id = some p ∧ p'.healthy = p.healthy ∧ p'.nodeId = p.nodeId ∧
      (p'.suspect = p.suspect ∨ (safe -> p.suspect = false -> p.healthy = false)) := by
  rcases Option.map_eq_some_iff.mp h with ⟨p, hp, hmarked⟩
  refine ⟨p, hp, ?_⟩
  rw [← hmarked]
  split_ifs with hmarks
  · exact ⟨rfl, rfl, Or.inr (hdue p hp hmarks)⟩
  · exact ⟨rfl, rfl, Or.inl rfl⟩

theorem record_handle {m : Membership} (hm : m.Keyed) {e : HealthEvent} {id : String}
    (hid : ¬ id ∈ e.answers) {p' : PeerInfo} (hp' : (m.handle e).peers.get? id = some p') :
    exists p, m.peers.get? id = some p ∧ p'.healthy = p.healthy ∧ p'.nodeId = p.nodeId ∧
      (p'.suspect = p.suspect ∨
        (MarksUnhealthy m e -> p.suspect = false -> p.healthy = false)) := by
  cases e with
  | heartbeat nodeId leaseUntil report roundTripMs now =>
    have hne : id ≠ nodeId := hid
    change (m.recordHeartbeat nodeId leaseUntil report roundTripMs now).2.peers.get? id = _
      at hp'
    rw [get?_recordHeartbeat_of_ne m hne] at hp'
    exact ⟨p', hp', rfl, rfl, Or.inl rfl⟩
  | miss nodeId =>
    change (m.peers.modify nodeId _).get? id = _ at hp'
    rw [Dict.get?_modify] at hp'
    split at hp'
    · next heq =>
        rcases Option.map_eq_some_iff.mp hp' with ⟨p, hp, hchanged⟩
        rw [heq, ← hchanged]
        exact ⟨p, hp, rfl, rfl, Or.inl rfl⟩
    · exact ⟨p', hp', rfl, rfl, Or.inl rfl⟩
  | leaseScan now =>
    change (m.evictExpiredLeases now).2.peers.get? id = _ at hp'
    rw [get?_evictExpiredLeases] at hp'
    exact record_of_marked hp' (fun p hp hover hsafe hnew => absurd hover (hsafe id p hp hnew))
  | detect config detector =>
    change (m.detectorPass config detector).peers.get? id = _ at hp'
    rcases (get?_detectorPass hm config detector id).left with hnone | hrecord
    · rw [hnone] at hp'
      cases hp'
    · rw [hrecord] at hp'
      refine record_of_marked hp' (fun p hp hlagging hsafe hnew => ?_)
      exact Bool.eq_false_of_not_eq_true (fun hhealthy => hsafe id p hp hnew hhealthy hlagging)

theorem keyed_handle {m : Membership} (hm : m.Keyed) (e : HealthEvent) :
    (m.handle e).Keyed := by
  intro id p' hp'
  by_cases hid : id ∈ e.answers
  · cases e with
    | heartbeat nodeId leaseUntil report roundTripMs now =>
      have hsame := (m.recordHeartbeat_sameMembers nodeId leaseUntil report roundTripMs
        now).ids id
      change (m.recordHeartbeat nodeId leaseUntil report roundTripMs now).2.peers.get? id = _
        at hp'
      rw [hp', Option.map_some, eq_comm, Option.map_eq_some_iff] at hsame
      rcases hsame with ⟨p, hp, hname⟩
      rw [← hname]
      exact hm id p hp
    | miss nodeId | leaseScan now | detect config detector => cases hid
  · rcases record_handle hm hid hp' with ⟨p, hp, _, hname, _⟩
    rw [hname]
    exact hm id p hp

theorem marked_of_due {m : Membership} (hm : m.Keyed) {e : HealthEvent}
    (h : ¬ MarksUnhealthy m e) :
    exists id, ¬ id ∈ e.answers ∧ id ∈ newlySuspect m (m.handle e) ∧
      exists p, (m.handle e).peers.get? id = some p ∧ p.healthy = true := by
  cases e with
  | heartbeat nodeId leaseUntil report roundTripMs now | miss nodeId => exact absurd trivial h
  | leaseScan now =>
    unfold MarksUnhealthy at h
    push Not at h
    rcases h with ⟨id, p, hp, hnew, hover⟩
    have hmarked : (m.evictExpiredLeases now).2.peers.get? id =
        some { p with suspect := true } := by
      rw [get?_evictExpiredLeases, hp, Option.map_some, if_pos hover]
    exact ⟨id, fun habsurd => habsurd, ⟨p, _, hp, hmarked, hnew, rfl⟩, _, hmarked,
      hover.right.left⟩
  | detect config detector =>
    unfold MarksUnhealthy at h
    push Not at h
    rcases h with ⟨id, p, hp, hnew, hhealthy, hlagging⟩
    have hmarked := (get?_detectorPass hm config detector id).right p hp hlagging
    exact ⟨id, fun habsurd => habsurd, ⟨p, _, hp, hmarked, hnew, rfl⟩, _, hmarked, hhealthy⟩

end Events

end Membership
end Network

namespace Transport

open Network Foundation

def Cluster.over (settings : Cluster) (m : Membership) : Cluster :=
  { settings with
    nodeId := m.nodeId
    peers := m.peers.mapValues PeerInfo.healthy
    clients := m.clients.keys.toFinset }

theorem Cluster.mem_healthy_over {settings : Cluster} {m : Membership} {id : String} :
    id ∈ (settings.over m).healthy <->
      exists p, m.peers.get? id = some p ∧ p.healthy = true := by
  refine ((m.peers.mapValues PeerInfo.healthy).mem_filter (fun _ healthy => healthy) id).trans ?_
  simp [Dict.get?_mapValues]

theorem Cluster.replicaPeers_subset (c : Cluster) {id : String} (h : id ∈ c.replicaPeers) :
    id ∈ c.healthy := by
  have htaken := List.mem_of_mem_take (List.mem_filter.mp h).left
  exact (List.mem_filter.mp htaken).left

/-- No peer that was marked and did not answer since is listed as healthy or chosen as a
replica of a write. -/
def NotChosen (settings : Cluster) (w : Membership.Watched) : Prop :=
  forall id, id ∈ w.suspected -> ¬ id ∈ w.membership.healthy.map PeerInfo.nodeId ∧
    ¬ id ∈ (settings.over w.membership).replicaPeers

theorem notChosen_iff_records (settings : Cluster) {w : Membership.Watched}
    (hw : w.membership.Keyed) :
    NotChosen settings w <-> forall id, id ∈ w.suspected ->
      forall p, w.membership.peers.get? id = some p -> p.healthy = false := by
  constructor
  · intro h id hid p hp
    have hlisted := (h id hid).left
    rw [Membership.mem_healthy_ids hw] at hlisted
    cases hhealthy : p.healthy with
    | false => rfl
    | true => exact absurd ⟨p, hp, hhealthy⟩ hlisted
  · intro h id hid
    have hnone : ¬ exists p, w.membership.peers.get? id = some p ∧ p.healthy = true := by
      rintro ⟨p, hp, hhealthy⟩
      rw [h id hid p hp] at hhealthy
      cases hhealthy
    constructor
    · rw [Membership.mem_healthy_ids hw]
      exact hnone
    · intro hreplica
      exact hnone (Cluster.mem_healthy_over.mp (Cluster.replicaPeers_subset _ hreplica))

section Runs

variable [RingPoints]

theorem notChosen_next_iff (settings : Cluster) {w : Membership.Watched}
    (hw : w.membership.Keyed) (h : NotChosen settings w) (e : Membership.HealthEvent) :
    NotChosen settings (w.next e) <-> Membership.MarksUnhealthy w.membership e := by
  have hnext : (w.next e).membership.Keyed := Membership.keyed_handle hw e
  rw [notChosen_iff_records settings hw] at h
  rw [notChosen_iff_records settings hnext]
  constructor
  · intro hkept
    by_contra hdue
    rcases Membership.marked_of_due hw hdue with ⟨id, hid, hmarked, p, hp, hhealthy⟩
    rw [hkept id ⟨Or.inr hmarked, hid⟩ p hp] at hhealthy
    cases hhealthy
  · rintro hsafe id ⟨hid, hanswer⟩ p' hp'
    rcases Membership.record_handle hw hanswer hp' with ⟨p, hp, hflag, _, hmark⟩
    rw [hflag]
    rcases hid with hbefore | ⟨old, new, hold, hnew, hunmarked, hmarked⟩
    · exact h id hbefore p hp
    · rw [hp] at hold
      have hsame : new = p' := Option.some.inj (hnew.symm.trans hp')
      rw [← Option.some.inj hold] at hunmarked
      rw [hsame] at hmarked
      rcases hmark with hequal | hdue
      · rw [hequal, hunmarked] at hmarked
        cases hmarked
      · exact hdue hsafe hunmarked

/-- Throughout a run no marked peer is listed as healthy or chosen before it answers
exactly if no event marks a peer that counts as healthy. -/
theorem throughout_notChosen_iff (settings : Cluster) {m : Membership} (hm : m.Sound)
    (events : List Membership.HealthEvent) :
    Throughout Membership.Watched.next (NotChosen settings) ⟨m, ∅⟩ events <->
      Along Membership.Watched.next (fun w e => Membership.MarksUnhealthy w.membership e)
        ⟨m, ∅⟩ events := by
  apply throughout_iff_along (fun w => w.membership.Keyed) (NotChosen settings)
    (fun _ _ => True)
  · intro w e hw _
    exact Membership.keyed_handle hw e
  · intro w e hw hkept _
    exact notChosen_next_iff settings hw hkept e
  · exact hm.keyed
  · intro id hid
    cases hid
  · exact along_of_forall (fun _ _ => trivial) _ events

end Runs

section Lagging

attribute [local instance] RingHash.byName

def pairSettings : Cluster where
  nodeId := "a"
  peers := Dict.empty
  clients := ∅
  defaultConsistency := .strong
  quorumCount := 2
  replicaCount := 1
  quorumTimeoutSec := 5

def laggingPeer : List Membership.HealthEvent :=
  [.miss "b", .miss "b", .detect defaultConfig (Membership.defaultDetector defaultConfig)]

/-- The peer was marked, counts as healthy and is the replica of the next write. -/
theorem laggingPeer_chosen :
    "b" ∈ (run Membership.Watched.next ⟨pairOfNodes, ∅⟩ laggingPeer).suspected ∧
      "b" ∈ (pairSettings.over
        (run Membership.Watched.next ⟨pairOfNodes, ∅⟩ laggingPeer).membership).replicaPeers ∧
      ¬ Throughout Membership.Watched.next (NotChosen pairSettings) ⟨pairOfNodes, ∅⟩
        laggingPeer := by
  have hsuspected :
      "b" ∈ (run Membership.Watched.next ⟨pairOfNodes, ∅⟩ laggingPeer).suspected :=
    ⟨Or.inr ⟨_, _, rfl, rfl, rfl, rfl⟩, fun h => h⟩
  have hreplica : "b" ∈ (pairSettings.over
      (run Membership.Watched.next ⟨pairOfNodes, ∅⟩ laggingPeer).membership).replicaPeers := by
    decide
  refine ⟨hsuspected, hreplica, ?_⟩
  intro h
  exact (h laggingPeer (List.prefix_refl _) "b" hsuspected).right hreplica

def unhealthyPair : Membership :=
  pairOfNodes.update "b" (fun p => { p with healthy := false })

/-- The peer is marked, and did not count as healthy before. -/
theorem unhealthyPeer_notChosen :
    "b" ∈ (run Membership.Watched.next ⟨unhealthyPair, ∅⟩ laggingPeer).suspected ∧
      Throughout Membership.Watched.next (NotChosen pairSettings) ⟨unhealthyPair, ∅⟩
        laggingPeer := by
  have hsound : unhealthyPair.Sound :=
    (Membership.update_sameMembers pairOfNodes "b" (fun p => { p with healthy := false })
      (fun _ _ => rfl)).sound pairOfNodes_placed.toSound
  refine ⟨⟨Or.inr ⟨_, _, rfl, rfl, rfl, rfl⟩, fun h => h⟩, ?_⟩
  refine (throughout_notChosen_iff pairSettings hsound laggingPeer).mpr
    ⟨trivial, trivial, ?_, trivial⟩
  intro id p hp _ hhealthy
  have hunhealthy : forall entry,
      entry ∈ (run Membership.Watched.next ⟨unhealthyPair, ∅⟩
        [.miss "b", .miss "b"]).membership.peers.entries -> entry.2.healthy = false := by
    decide
  have hfalse := hunhealthy (id, p) ((Dict.get?_eq_some_iff _ _ _).mp hp)
  exact absurd (hhealthy.symm.trans hfalse) Bool.noConfusion

end Lagging

end Transport
end Membrane
