import Membrane.Transport.PeerIdentity

/-!
# Peers that have left and the directory

The directory remembers which nodes hold a fragment.  When a peer is removed, the
membership table asks the directory to forget it.  The directory does so for the nodes
that were registered with it, and a peer that joins is not.
-/

namespace Membrane
namespace Transport

open Foundation Data Store Network

def locateFragment (r : Registry) (contentHash : String) : Finset String :=
  r.fragmentLocations.getD contentHash ∅

def registerNode (r : Registry) (nodeId : String) : Registry :=
  { r with nodes := insert nodeId r.nodes }

def GossipMessage.holders (message : GossipMessage) : List String :=
  message.fragmentLocations.entries.flatMap Prod.snd

/-!
# What the directory answers
-/

variable {r : Registry}

theorem locateFragment_unregisterNode (r : Registry) (nodeId contentHash : String) :
    locateFragment (r.unregisterNode nodeId).2 contentHash =
      if nodeId ∈ r.nodes then (locateFragment r contentHash).erase nodeId
      else locateFragment r contentHash := by
  unfold Registry.unregisterNode
  by_cases hknown : nodeId ∈ r.nodes
  · rw [if_neg (not_not.mpr hknown), if_pos hknown]
    unfold locateFragment Dict.getD
    rw [Dict.get?_mapValues]
    cases r.fragmentLocations.get? contentHash with
    | none => rfl
    | some holders => rfl
  · rw [if_pos hknown, if_neg hknown]

theorem mem_locateFragment_recordFragmentLocation {contentHash nodeId other peer : String}
    (h : peer ∈ locateFragment (recordFragmentLocation r contentHash nodeId) other) :
    peer ∈ locateFragment r other ∨ peer = nodeId := by
  unfold recordFragmentLocation at h
  split at h
  · rename_i hholders
    unfold locateFragment Dict.getD at h ⊢
    simp only [Dict.get?_set, Dict.get?_erase] at h
    split at h
    next hsame =>
        rw [hsame, hholders]
        rcases Finset.mem_insert.mp h with h | h
        · exact Or.inr h
        · exact Or.inl h
    next hne => exact Or.inl h
  · unfold locateFragment Dict.getD at h ⊢
    cases hdropped : ((r.fragmentLocations.set contentHash {nodeId}).dropOldest
        ((r.fragmentLocations.set contentHash {nodeId}).size - r.maxEntries)).get? other with
    | none =>
      simp only [hdropped] at h
      exact absurd h (Finset.notMem_empty peer)
    | some kept =>
      simp only [hdropped] at h
      have hset := Dict.get?_of_get?_dropOldest hdropped
      rw [Dict.get?_set] at hset
      split at hset
      next hsame =>
          cases hset
          exact Or.inr (Finset.mem_singleton.mp h)
      next hne =>
          rw [hset]
          exact Or.inl h

theorem mem_locateFragment_recordHolders {contentHash other peer : String}
    (holders : List String)
    (h : peer ∈ locateFragment
      (holders.foldl (fun r nodeId => recordFragmentLocation r contentHash nodeId) r) other) :
    peer ∈ locateFragment r other ∨ peer ∈ holders := by
  induction holders generalizing r with
  | nil => exact Or.inl h
  | cons nodeId rest ih =>
    rcases ih h with h | h
    · rcases mem_locateFragment_recordFragmentLocation h with h | h
      · exact Or.inl h
      · exact Or.inr (h ▸ List.mem_cons_self)
    · exact Or.inr (List.mem_cons_of_mem _ h)

theorem mem_locateFragment_recordLocations {message : GossipMessage} {other peer : String}
    (h : peer ∈ locateFragment (recordLocations r message) other) :
    peer ∈ locateFragment r other ∨ peer ∈ message.holders := by
  unfold recordLocations at h
  unfold GossipMessage.holders
  generalize message.fragmentLocations.entries = entries at h ⊢
  induction entries generalizing r with
  | nil => exact Or.inl h
  | cons entry rest ih =>
    rw [List.flatMap_cons, List.mem_append]
    rcases ih h with h | h
    · rcases mem_locateFragment_recordHolders entry.2 h with h | h
      · exact Or.inl h
      · exact Or.inr (Or.inl h)
    · exact Or.inr (Or.inr h)

/-!
# Runs
-/

inductive DirectoryCall where
  | join (nodeId host : String) (port : Int) (peerCn : String) (now : ℚ)
  | gossip (message : Option GossipMessage) (clock : PeerEndpoint -> ℚ)
  | record (contentHash nodeId : String)
  | register (nodeId : String)
  | remove (nodeId : String)

structure Listing where
  member : Member
  departed : Finset String

namespace Listing

def directory (s : Listing) : Registry := s.member.membership.directory

def NamesNoDeparted (s : Listing) : Prop :=
  forall peer, peer ∈ s.departed -> forall contentHash,
    ¬ peer ∈ locateFragment s.directory contentHash

def withDirectory (s : Listing) (directory : Registry) (departed : Finset String) : Listing where
  member :=
    { s.member with membership := { s.member.membership with directory := directory } }
  departed := departed

theorem NamesNoDeparted.mono {s next : Listing} (h : s.NamesNoDeparted)
    (hdeparted : next.departed ⊆ s.departed)
    (hanswers : forall peer contentHash, peer ∈ next.departed ->
      peer ∈ locateFragment next.directory contentHash ->
      peer ∈ locateFragment s.directory contentHash) : next.NamesNoDeparted := by
  intro peer hpeer contentHash hmem
  exact h peer (hdeparted hpeer) contentHash (hanswers peer contentHash hpeer hmem)

section Running

variable [RingPoints]

/-- The peers that a message brings back: those that its locations name, if the message
was taken over. -/
def namedBy (s : Listing) (message : Option GossipMessage) (clock : PeerEndpoint -> ℚ) :
    List String :=
  match s.member.handle message clock with
  | (.error _, _) => []
  | (.ok _, _) => (message.map GossipMessage.holders).getD []

def departing (departed : Finset String) (nodeId : String) :
    Except RingError Bool -> Finset String
  | .ok true => insert nodeId departed
  | _ => departed

def call (s : Listing) : DirectoryCall -> Listing
  | .join nodeId host port peerCn now =>
    { s with
      member :=
        { s.member with
          membership := (s.member.membership.add nodeId host port peerCn now).2 } }
  | .gossip message clock =>
    { member := (s.member.handle message clock).2
      departed := s.departed.filter (fun peer => ¬ peer ∈ s.namedBy message clock) }
  | .record contentHash nodeId =>
    s.withDirectory (recordFragmentLocation s.directory contentHash nodeId)
      (s.departed.erase nodeId)
  | .register nodeId => s.withDirectory (registerNode s.directory nodeId) s.departed
  | .remove nodeId =>
    { member := { s.member with membership := (s.member.membership.remove nodeId).2 }
      departed := departing s.departed nodeId (s.member.membership.remove nodeId).1 }

/-- A peer that is removed is registered with the directory, or no location names it. -/
def RemovesUnlisted (s : Listing) : DirectoryCall -> Prop
  | .join _ _ _ _ _ => True
  | .gossip _ _ => True
  | .record _ _ => True
  | .register _ => True
  | .remove nodeId =>
    nodeId ∈ s.member.membership.peers ->
      (s.member.membership.shard.removeNode nodeId).1 = .ok () ->
        nodeId ∈ s.directory.nodes ∨
          forall contentHash, ¬ nodeId ∈ locateFragment s.directory contentHash

theorem add_directory (m : Membership) (nodeId host : String) (port : Int) (peerCn : String)
    (now : ℚ) : (m.add nodeId host port peerCn now).2.directory = m.directory := by
  unfold Membership.add
  split
  · rfl
  · split
    · rfl
    · rfl

theorem addPeers_directory (clock : PeerEndpoint -> ℚ) (peers : List PeerEndpoint)
    (m : Membership) : (addPeers clock peers m).2.directory = m.directory := by
  induction peers generalizing m with
  | nil => rfl
  | cons ep rest ih =>
    unfold addPeers
    split
    · have hadded := add_directory m ep.nodeId ep.host ep.port "" (clock ep)
      cases hadd : m.add ep.nodeId ep.host ep.port "" (clock ep) with
      | mk outcome added =>
        rw [hadd] at hadded
        cases outcome with
        | error e => exact hadded
        | ok _ => exact (ih added).trans hadded
    · exact ih m

variable {s : Listing}

theorem NamesNoDeparted.gossip (h : s.NamesNoDeparted) (message : Option GossipMessage)
    (clock : PeerEndpoint -> ℚ) : (s.call (.gossip message clock)).NamesNoDeparted := by
  refine h.mono (Finset.filter_subset _ _) ?_
  intro peer contentHash hpeer hmem
  have hunnamed := (Finset.mem_filter.mp hpeer).right
  unfold namedBy at hunnamed
  have hanswer : peer ∈ locateFragment (s.member.handle message clock).2.membership.directory
      contentHash := hmem
  cases message with
  | none => exact hanswer
  | some message =>
    have hsame := addPeers_directory clock message.peers s.member.membership
    unfold Member.handle at hunnamed hanswer
    cases hadd : addPeers clock message.peers s.member.membership with
    | mk outcome membership =>
      rw [hadd] at hsame
      cases outcome with
      | error e =>
        simp only [hadd] at hanswer
        rw [hsame] at hanswer
        exact hanswer
      | ok _ =>
        simp only [hadd] at hunnamed hanswer
        rw [hsame] at hanswer
        rcases mem_locateFragment_recordLocations hanswer with hanswer | hnamed
        · exact hanswer
        · exact absurd hnamed hunnamed

theorem NamesNoDeparted.record (h : s.NamesNoDeparted) (contentHash nodeId : String) :
    (s.call (.record contentHash nodeId)).NamesNoDeparted := by
  refine h.mono (Finset.erase_subset _ _) ?_
  intro peer other hpeer hmem
  rcases mem_locateFragment_recordFragmentLocation hmem with hmem | heq
  · exact hmem
  · exact absurd heq (Finset.mem_erase.mp hpeer).left

theorem remove_outcome (m : Membership) (nodeId : String) :
    ((nodeId ∈ m.peers ∧ (m.shard.removeNode nodeId).1 = .ok ()) ∧
      (m.remove nodeId).1 = .ok true ∧
      (m.remove nodeId).2.directory = (m.directory.unregisterNode nodeId).2) ∨
    (¬ (nodeId ∈ m.peers ∧ (m.shard.removeNode nodeId).1 = .ok ()) ∧
      (m.remove nodeId).1 ≠ .ok true ∧
      (m.remove nodeId).2.directory = m.directory) := by
  unfold Membership.remove
  by_cases hmem : nodeId ∈ m.peers
  · rw [if_neg (not_not.mpr hmem)]
    cases hplaced : (m.shard.removeNode nodeId).1 with
    | ok _ =>
      simp only [hplaced]
      exact Or.inl ⟨⟨hmem, trivial⟩, trivial, trivial⟩
    | error e =>
      simp only [hplaced]
      exact Or.inr ⟨fun h => (nomatch h.right), fun h => (nomatch h), trivial⟩
  · rw [if_pos hmem]
    exact Or.inr ⟨fun h => hmem h.left, fun h => (nomatch h), rfl⟩

theorem NamesNoDeparted.remove_iff (h : s.NamesNoDeparted) (nodeId : String) :
    (s.call (.remove nodeId)).NamesNoDeparted <-> s.RemovesUnlisted (.remove nodeId) := by
  rcases remove_outcome s.member.membership nodeId with
    ⟨⟨hmem, hplaced⟩, hdone, hdirectory⟩ | ⟨hrefused, hdone, hdirectory⟩
  · have hdeparted : (s.call (.remove nodeId)).departed = insert nodeId s.departed := by
      show departing s.departed nodeId (s.member.membership.remove nodeId).1 = _
      rw [hdone]
      rfl
    have hanswer : forall contentHash,
        locateFragment (s.call (.remove nodeId)).directory contentHash =
          if nodeId ∈ s.directory.nodes then
            (locateFragment s.directory contentHash).erase nodeId
          else locateFragment s.directory contentHash := by
      intro contentHash
      rw [← locateFragment_unregisterNode]
      exact congrArg (fun directory => locateFragment directory contentHash) hdirectory
    constructor
    · intro hnext _ _
      by_cases hknown : nodeId ∈ s.directory.nodes
      · exact Or.inl hknown
      · right
        intro contentHash
        have hforgotten := hnext nodeId (hdeparted ▸ Finset.mem_insert_self _ _) contentHash
        rw [hanswer, if_neg hknown] at hforgotten
        exact hforgotten
    · intro hunlisted peer hpeer contentHash hfound
      rw [hanswer] at hfound
      rw [hdeparted] at hpeer
      rcases Finset.mem_insert.mp hpeer with rfl | hpeer
      · rcases hunlisted hmem hplaced with hknown | habsent
        · rw [if_pos hknown] at hfound
          exact absurd rfl (Finset.mem_erase.mp hfound).left
        · split at hfound
          · exact habsent contentHash (Finset.mem_erase.mp hfound).right
          · exact habsent contentHash hfound
      · split at hfound
        · exact h peer hpeer contentHash (Finset.mem_erase.mp hfound).right
        · exact h peer hpeer contentHash hfound
  · have hdeparted : (s.call (.remove nodeId)).departed = s.departed := by
      show departing s.departed nodeId (s.member.membership.remove nodeId).1 = _
      cases hresult : (s.member.membership.remove nodeId).1 with
      | error e => rfl
      | ok known =>
        cases known with
        | true => exact absurd hresult hdone
        | false => rfl
    refine ⟨fun _ hmem hplaced => absurd ⟨hmem, hplaced⟩ hrefused, fun _ => ?_⟩
    intro peer hpeer contentHash hfound
    rw [hdeparted] at hpeer
    refine h peer hpeer contentHash ?_
    unfold directory at hfound ⊢
    rw [← hdirectory]
    exact hfound

theorem NamesNoDeparted.call_iff (h : s.NamesNoDeparted) (c : DirectoryCall) :
    (s.call c).NamesNoDeparted <-> s.RemovesUnlisted c := by
  cases c with
  | join nodeId host port peerCn now =>
    refine ⟨fun _ => trivial, fun _ => h.mono (Finset.Subset.refl _) ?_⟩
    intro peer contentHash _ hmem
    have hsame := add_directory s.member.membership nodeId host port peerCn now
    unfold directory at hmem ⊢
    rw [← hsame]
    exact hmem
  | gossip message clock => exact ⟨fun _ => trivial, fun _ => h.gossip message clock⟩
  | record contentHash nodeId => exact ⟨fun _ => trivial, fun _ => h.record contentHash nodeId⟩
  | register nodeId =>
    exact ⟨fun _ => trivial, fun _ => h.mono (Finset.Subset.refl _) (fun _ _ _ hmem => hmem)⟩
  | remove nodeId => exact h.remove_iff nodeId

/-- The directory names no peer that has left in exactly the runs where every removed peer
was registered with it or was not among its locations. -/
theorem run_namesNoDeparted_iff (member : Member) (calls : List DirectoryCall) :
    Throughout call NamesNoDeparted ⟨member, ∅⟩ calls <->
      Along call RemovesUnlisted ⟨member, ∅⟩ calls := by
  have hstart : NamesNoDeparted ⟨member, ∅⟩ :=
    fun peer hpeer => absurd hpeer (Finset.notMem_empty peer)
  exact throughout_iff_along (fun _ => True) NamesNoDeparted (fun _ _ => True) RemovesUnlisted
    (fun _ _ _ _ => trivial) (fun _ c _ hnames _ => hnames.call_iff c)
    trivial hstart (along_of_forall (fun _ _ => trivial) _ calls)

end Running

end Listing

section Sample

attribute [local instance] RingDigest.verbatim

def loneMember : Member where
  membership := firstMember
  tombstones := TombstoneTable.create

def namedThenRemoved : List DirectoryCall :=
  [.join "b" "host" 7000 "" 0, .record "h" "b", .remove "b"]

theorem namedThenRemoved_not_namesNoDeparted :
    ¬ Throughout Listing.call Listing.NamesNoDeparted ⟨loneMember, ∅⟩ namedThenRemoved := by
  intro h
  have hnames := h _ (List.prefix_refl _)
  have hdeparted : "b" ∈ (run Listing.call ⟨loneMember, ∅⟩ namedThenRemoved).departed := by
    decide +kernel
  have hnamed : "b" ∈ locateFragment
      (run Listing.call ⟨loneMember, ∅⟩ namedThenRemoved).directory "h" := by
    decide +kernel
  exact hnames "b" hdeparted "h" hnamed

end Sample

end Transport
end Membrane
