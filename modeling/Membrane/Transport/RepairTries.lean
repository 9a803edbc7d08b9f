import Membrane.Serving.LocatedReads
import Membrane.Transport.Repair

/-!
# What a repair pass pushes

Against a peer with bucket digests a pass pushes what a bucket lacks at its version.
Against any other peer it pushes what the whole inventory lacks, whatever the version.  The
peer below answers from a fixed inventory and keeps a list of the fragments it is offered.
-/

namespace Membrane
namespace Transport

open Foundation Data Store Serving

/-!
# A peer with a fixed inventory
-/

/-- A peer that answers every request from one inventory and notes what it is offered.  It
may have no bucket digests, and it takes or refuses what is pushed to it. -/
structure ListedPeer where
  digests : Option (Fin buckets -> BitVec 64)
  inventory : Dict String Int
  accepts : Fragment -> Bool
  offered : List Fragment

namespace ListedPeer

def offer (p : ListedPeer) (fragments : List Fragment) : ListedPeer :=
  { p with offered := p.offered ++ fragments }

theorem offer_nil (p : ListedPeer) : p.offer [] = p := by
  unfold offer
  rw [List.append_nil]

theorem offer_offer (p : ListedPeer) (first second : List Fragment) :
    (p.offer first).offer second = p.offer (first ++ second) := by
  unfold offer
  rw [List.append_assoc]

end ListedPeer

def bucketInventory [InventoryHash] (inventory : Dict String Int) (bucket : Fin buckets) :
    Dict String Int :=
  inventory.filter (fun k _ => decide (InventoryHash.bucketOf k = bucket))

instance [InventoryHash] : RepairClient ListedPeer where
  bucketDigests p := (p.digests, p)
  inventoryBucket p bucket := (some (bucketInventory p.inventory bucket), p)
  inventoryDigest p := (some p.inventory, p)
  replicateFragment p f _ := (p.accepts f, p.offer [f])

/-!
# Stale hashes
-/

theorem not_atLeast_iff {inventory : Dict String Int} {k : String} {v : Int} :
    ¬ AtLeast inventory k v <->
      inventory.get? k = none ∨ exists w, inventory.get? k = some w ∧ w < v := by
  unfold AtLeast
  cases inventory.get? k with
  | none => simp
  | some w => simp

section Expected

variable {sigma tau pi : Type} [InventoryHash]

def Stale (n : Node sigma tau pi) (hashes : List String) (inventory : Dict String Int)
    (k : String) : Prop :=
  k ∈ hashes ∧ exists f, n.fragments.get? k = some f ∧
    (inventory.get? k = none ∨ exists w, inventory.get? k = some w ∧ w < f.versionId)

theorem atLeast_bucketInventory {inventory : Dict String Int} {k : String} {v : Int} :
    AtLeast (bucketInventory inventory (InventoryHash.bucketOf k)) k v <->
      AtLeast inventory k v := by
  constructor
  · rintro ⟨w, hw, hle⟩
    exact ⟨w, ((Dict.get?_filter_eq_some_iff _ _ _ _).mp hw).left, hle⟩
  · rintro ⟨w, hw, hle⟩
    exact ⟨w, (Dict.get?_filter_eq_some_iff _ _ _ _).mpr ⟨hw, decide_eq_true rfl⟩, hle⟩

theorem exists_mem_groups {n : Node sigma tau pi} {hashes : List String} {k : String}
    {f : Fragment} (hk : k ∈ hashes) (hf : n.fragments.get? k = some f) :
    exists expected, (InventoryHash.bucketOf k, expected) ∈ (groups n hashes).entries ∧
      expected.get? k = some f.versionId := by
  have hexpected := get?_groups n hashes (InventoryHash.bucketOf k) k
  rw [if_pos ⟨hk, rfl⟩, hf] at hexpected
  cases hgroup : (groups n hashes).get? (InventoryHash.bucketOf k) with
  | none =>
    unfold Dict.getD at hexpected
    rw [hgroup] at hexpected
    cases hexpected
  | some expected =>
    unfold Dict.getD at hexpected
    rw [hgroup] at hexpected
    exact ⟨expected, (Dict.get?_eq_some_iff _ _ _).mp hgroup, hexpected⟩

theorem mem_missing_groups_iff (n : Node sigma tau pi) (hashes : List String)
    (inventory : Dict String Int) (k : String) :
    k ∈ (groups n hashes).entries.flatMap (fun entry =>
        missingFrom (bucketInventory inventory entry.1) entry.2) <->
      Stale n hashes inventory k := by
  rw [List.mem_flatMap]
  constructor
  · rintro ⟨⟨bucket, expected⟩, hentry, hmissing⟩
    have hpos : forall j v, expected.get? j = some v -> 0 < v :=
      fun j v hv => pos_of_mem_groups hentry hv
    obtain ⟨v, hv, hlate⟩ := (mem_missingFrom_iff hpos k).mp hmissing
    obtain ⟨hk, hbucket, f, hf, hversion⟩ := (get?_of_mem_groups hentry).mp hv
    refine ⟨hk, f, hf, ?_⟩
    rw [← not_atLeast_iff, hversion, ← atLeast_bucketInventory, hbucket]
    exact hlate
  · rintro ⟨hk, f, hf, hlate⟩
    obtain ⟨expected, hentry, hv⟩ := exists_mem_groups hk hf
    have hpos : forall j v, expected.get? j = some v -> 0 < v :=
      fun j v hv => pos_of_mem_groups hentry hv
    refine ⟨_, hentry, (mem_missingFrom_iff hpos k).mpr ⟨f.versionId, hv, ?_⟩⟩
    rw [atLeast_bucketInventory, not_atLeast_iff]
    exact hlate

theorem mem_keys_filterMap_iff {n : Node sigma tau pi} (hn : n.Invariant)
    (selected : List String) (k : String) :
    k ∈ (selected.filterMap n.fragments.get?).map Fragment.key <->
      k ∈ selected ∧ k ∈ n.fragments := by
  rw [List.mem_map]
  constructor
  · rintro ⟨f, hf, rfl⟩
    rcases List.mem_filterMap.mp hf with ⟨j, hj, hget⟩
    rw [hn.bookkeeping.keyed j f hget]
    exact ⟨hj, Dict.mem_of_get? hget⟩
  · rintro ⟨hk, hmem⟩
    rcases (Dict.mem_iff_exists_get? _ _).mp hmem with ⟨f, hf⟩
    exact ⟨f, List.mem_filterMap.mpr ⟨k, hk, hf⟩, hn.bookkeeping.keyed k f hf⟩

end Expected

/-!
# The reads of a pass
-/

section Reads

variable {sigma tau pi : Type} [InventoryHash]

/-- A listed hash that is on the node is live when the pass reads it.  For one that is not,
the node has no lower tier to ask and no copy of another tenant to give instead. -/
structure Readable (n : Node sigma tau pi) (hashes : List String) (readings : PassReadings) :
    Prop where
  invariant : n.Invariant
  right : CachesRight n.table
  live : forall k f, k ∈ hashes -> n.fragments.get? k = some f ->
    n.Live k f Caller.internal (readings.times k).read
  absent : forall k, k ∈ hashes -> ¬ k ∈ n.fragments ->
    n.lowerTier = none ∧ ¬ k ∈ n.table.tenantKeys

variable {n : Node sigma tau pi} {hashes : List String} {readings : PassReadings} {k : String}

/-- A read that touches only the caches leaves everything readable. -/
theorem Readable.of_cachesOnly (h : Readable n hashes readings) {m : Node sigma tau pi}
    (hinvariant : m.Invariant) (hright : CachesRight m.table)
    (htable : FragmentTable.CachesOnly n.table m.table) (htier : m.lowerTier = n.lowerTier) :
    Readable m hashes readings := by
  have hfragments : m.fragments = n.fragments := by
    unfold Node.fragments
    rw [htable]
  refine { invariant := hinvariant, right := hright, live := ?_, absent := ?_ }
  · intro k f hk hf
    rw [hfragments] at hf
    have hlive := h.live k f hk hf
    refine { resident := hfragments ▸ hf, readable := hlive.readable, unexpired := ?_ }
    rw [htable]
    exact hlive.unexpired
  · intro k hk habsent
    rw [hfragments] at habsent
    rw [htier, htable]
    exact h.absent k hk habsent

variable [ContentStore sigma] [LowerTier tau] [EvictionPolicy pi]

theorem retrieve_internal_of_live {f : Fragment} {times : Node.ReadTimes}
    (hright : CachesRight n.table) (hlive : n.Live k f Caller.internal times.read)
    (thread : Thread) (ownTimes otherTimes : Node.ReadTimes) :
    n.retrieve thread k Caller.internal ownTimes times otherTimes =
      (.ok (some f), n.withLookup thread k (some times.read)) := by
  unfold Node.retrieve
  split_ifs with hseparator htenant
  · exact Node.retrieveKey_of_live (hright k) hlive thread
  · exact absurd rfl htenant.left
  · exact Node.retrieveDefault_of_live (hright k) hlive thread otherTimes

theorem retrieve_internal_of_absent (hcached : CachedResident n.table)
    (hk : ¬ k ∈ n.fragments) (htier : n.lowerTier = none)
    (hcopies : ¬ k ∈ n.table.tenantKeys) (thread : Thread)
    (ownTimes times otherTimes : Node.ReadTimes) :
    n.retrieve thread k Caller.internal ownTimes times otherTimes =
      (.ok none, n.opened thread) := by
  have hread : n.retrieveKey thread k Caller.internal times = (.ok none, n.opened thread) := by
    unfold Node.retrieveKey
    rw [if_neg (by simp [htier])]
    exact Node.readKey_of_not_mem hcached hk thread Caller.internal times.read
  have hkeys : ¬ k ∈ (n.opened thread).table.tenantKeys := hcopies
  unfold Node.retrieve
  split_ifs with hseparator htenant
  · exact hread
  · exact absurd rfl htenant.left
  · unfold Node.retrieveDefault
    simp only [hread, if_neg hkeys]

theorem Readable.readLocal (h : Readable n hashes readings) (hk : k ∈ hashes) :
    exists m, readLocal n readings k = (.ok (n.fragments.get? k), m) ∧
      Readable m hashes readings ∧ m.fragments = n.fragments := by
  have hkept : (n.call (.retrieve readings.thread k Caller.internal (readings.ownTimes k)
      (readings.times k) (readings.otherTimes k))).Invariant ∧
      CachesRight (n.call (.retrieve readings.thread k Caller.internal (readings.ownTimes k)
        (readings.times k) (readings.otherTimes k))).table :=
    ⟨Node.call_invariant h.invariant _,
      cachesRight_keptByCalls.call h.invariant h.right _⟩
  unfold Node.call at hkept
  unfold Transport.readLocal
  cases hf : n.fragments.get? k with
  | some f =>
    have hread := retrieve_internal_of_live h.right (h.live k f hk hf) readings.thread
      (readings.ownTimes k) (readings.otherTimes k)
    have htable := n.table.lookup_cachesOnly readings.thread k
      (some (readings.times k).read)
    simp only [hread] at hkept
    refine ⟨_, hread, h.of_cachesOnly hkept.left hkept.right htable rfl, ?_⟩
    show (n.table.lookup readings.thread k (some (readings.times k).read)).2.fragments = _
    rw [htable]
    rfl
  | none =>
    have hmem : ¬ k ∈ n.fragments := (Dict.get?_eq_none_iff _ _).mp hf
    rcases h.absent k hk hmem with ⟨htier, hcopies⟩
    have hread := retrieve_internal_of_absent h.right.cachedResident hmem htier hcopies
      readings.thread (readings.ownTimes k) (readings.times k) (readings.otherTimes k)
    simp only [hread] at hkept
    exact ⟨_, hread, h.of_cachesOnly hkept.left hkept.right rfl rfl, rfl⟩

/-!
# What the peer is offered
-/

section Offers

variable (hpush : forall k, readings.stopsAtPush k = false)

include hpush

theorem pushAll_offers {missing : List String} {s : Pushing ListedPeer sigma tau pi}
    (h : Readable s.node hashes readings) (hlisted : forall k, k ∈ missing -> k ∈ hashes) :
    exists m failed, pushAll readings missing s =
        (.ok (), ⟨m, s.peer.offer (missing.filterMap s.node.fragments.get?), failed⟩) ∧
      Readable m hashes readings ∧ m.fragments = s.node.fragments := by
  induction missing generalizing s with
  | nil =>
    refine ⟨s.node, s.failed, ?_, h, rfl⟩
    rw [List.filterMap_nil, ListedPeer.offer_nil]
    rfl
  | cons k rest ih =>
    have hrest : forall j, j ∈ rest -> j ∈ hashes :=
      fun j hj => hlisted j (List.mem_cons_of_mem k hj)
    rcases h.readLocal (hlisted k List.mem_cons_self) with ⟨read, hread, hreadable, hsame⟩
    rw [pushAll, if_neg (Bool.eq_false_iff.mp (hpush k)), hread]
    cases hf : s.node.fragments.get? k with
    | none =>
      rcases ih (s := { s with node := read }) hreadable hrest with
        ⟨m, failed, hpushed, hm, hfragments⟩
      refine ⟨m, failed, ?_, hm, hfragments.trans hsame⟩
      rw [List.filterMap_cons_none hf]
      exact hsame ▸ hpushed
    | some f =>
      rcases ih (s := pushFragment { s with node := read } k f) hreadable hrest with
        ⟨m, failed, hpushed, hm, hfragments⟩
      refine ⟨m, failed, ?_, hm, hfragments.trans hsame⟩
      have hnode : (pushFragment { s with node := read } k f).node.fragments =
          s.node.fragments := hsame
      have hpeer : (pushFragment { s with node := read } k f).peer = s.peer.offer [f] :=
        rfl
      rw [hnode, hpeer, ListedPeer.offer_offer] at hpushed
      rw [List.filterMap_cons_some hf]
      exact hpushed

def offeredFor (n : Node sigma tau pi) (inventory : Dict String Int)
    (entry : Fin buckets × Dict String Int) : List Fragment :=
  (missingFrom (bucketInventory inventory entry.1) entry.2).filterMap n.fragments.get?

theorem repairBucket_offers (remote : Fin buckets -> BitVec 64) {bucket : Fin buckets}
    {expected : Dict String Int} {s : Repairing ListedPeer sigma tau pi}
    (h : Readable s.node hashes readings) (hfresh : s.verified.get? bucket = none)
    (hlisted : forall k v, expected.get? k = some v -> k ∈ hashes) :
    exists m verified failed total, repairBucket remote readings bucket expected s =
        (.ok (), ⟨m, s.peer.offer (offeredFor s.node s.peer.inventory (bucket, expected)),
          failed, verified, total⟩) ∧
      Readable m hashes readings ∧ m.fragments = s.node.fragments := by
  have hmissing : forall k,
      k ∈ missingFrom (bucketInventory s.peer.inventory bucket) expected -> k ∈ hashes := by
    intro k hk
    rcases (expected.mem_filter (fun j v =>
      (bucketInventory s.peer.inventory bucket).getD j 0 < v) k).mp hk with ⟨v, hv, _⟩
    exact hlisted k v hv
  rcases pushAll_offers hpush (s := ⟨s.node, s.peer, ∅⟩) h hmissing with
    ⟨m, failed, hpushed, hm, hfragments⟩
  have hunverified : ¬ s.verified.get? bucket = some (remote bucket, fold expected) := by
    rw [hfresh]
    exact Option.some_ne_none _ ∘ Eq.symm
  have hrepair : repairBucket remote readings bucket expected s =
      pushBucket readings bucket (remote bucket, fold expected)
        (missingFrom (bucketInventory s.peer.inventory bucket) expected) s := by
    unfold repairBucket
    rw [if_neg hunverified]
    rfl
  rw [hrepair]
  unfold pushBucket
  rw [hpushed]
  exact ⟨m, _, _, _, rfl, hm, hfragments⟩

variable (hstop : forall bucket, readings.stopsAtBucket bucket = false)

include hstop

theorem repairBuckets_offers (remote : Fin buckets -> BitVec 64)
    {entries : List (Fin buckets × Dict String Int)} (hnodup : (entries.map Prod.fst).Nodup)
    (hlisted : forall entry, entry ∈ entries ->
      forall k v, entry.2.get? k = some v -> k ∈ hashes)
    {s : Repairing ListedPeer sigma tau pi} (h : Readable s.node hashes readings)
    (hverified : forall entry, entry ∈ entries -> s.verified.get? entry.1 = none) :
    (repairBuckets remote readings entries s).2.peer =
      s.peer.offer (entries.flatMap (offeredFor s.node s.peer.inventory)) := by
  induction entries generalizing s with
  | nil => exact s.peer.offer_nil.symm
  | cons entry rest ih =>
    obtain ⟨bucket, expected⟩ := entry
    obtain ⟨hbucket, hrest⟩ := List.nodup_cons.mp hnodup
    rcases repairBucket_offers hpush remote h (hverified _ List.mem_cons_self)
      (hlisted _ List.mem_cons_self) with
      ⟨m, verified, failed, total, hrepair, hm, hfragments⟩
    have hothers : forall entry, entry ∈ rest -> verified.get? entry.1 = none := by
      intro entry hentry
      have hne : entry.1 ≠ bucket := fun heq =>
        hbucket (List.mem_map.mpr ⟨entry, hentry, heq⟩)
      have hkept := get?_repairBucket_of_ne remote readings hne expected s
      rw [hrepair, hverified entry (List.mem_cons_of_mem _ hentry)] at hkept
      exact hkept
    have hlater := ih hrest
      (fun entry hentry => hlisted entry (List.mem_cons_of_mem _ hentry))
      (s := ⟨m, s.peer.offer (offeredFor s.node s.peer.inventory (bucket, expected)),
        failed, verified, total⟩) hm hothers
    have hsame : offeredFor m s.peer.inventory = offeredFor s.node s.peer.inventory := by
      unfold offeredFor
      rw [hfragments]
    change _ = (s.peer.offer _).offer (rest.flatMap (offeredFor m s.peer.inventory)) at hlater
    rw [hsame, ListedPeer.offer_offer] at hlater
    rw [repairBuckets, if_neg (Bool.eq_false_iff.mp (hstop bucket)), hrepair,
      List.flatMap_cons]
    exact hlater

end Offers

end Reads

/-!
# Both kinds of a pass
-/

section Passes

variable {sigma tau pi : Type}
variable [ContentStore sigma] [InventoryHash] [LowerTier tau] [EvictionPolicy pi]

def pushedKeys (r : Replicator) (n : Node sigma tau pi)
    (digests : Option (Fin buckets -> BitVec 64)) (inventory : Dict String Int)
    (accepts : Fragment -> Bool) (peerId : String) (hashes : List String)
    (readings : PassReadings) : List String :=
  (pushMissingTo r n (ListedPeer.mk digests inventory accepts []) peerId hashes
    readings).peer.offered.map Fragment.key

def PushesAgree (r : Replicator) (n : Node sigma tau pi) (remote : Fin buckets -> BitVec 64)
    (inventory : Dict String Int) (accepts : Fragment -> Bool) (peerId : String)
    (hashes : List String) (readings : PassReadings) : Prop :=
  forall k,
    (k ∈ pushedKeys r n (some remote) inventory accepts peerId hashes readings <->
      Stale n hashes inventory k) ∧
    (k ∈ pushedKeys r n none inventory accepts peerId hashes readings <->
      Stale n hashes inventory k)

variable {r : Replicator} {n : Node sigma tau pi} {inventory : Dict String Int}
  {accepts : Fragment -> Bool} {peerId : String} {hashes : List String}
  {readings : PassReadings}

section

variable (hreadable : Readable n hashes readings)
  (hpush : forall k, readings.stopsAtPush k = false)

include hreadable hpush

theorem mem_pushedKeys_full_iff (k : String) :
    k ∈ pushedKeys r n none inventory accepts peerId hashes readings <->
      k ∈ hashes ∧ inventory.get? k = none ∧ k ∈ n.fragments := by
  have hlisted : forall k, k ∈ hashes.filter (fun contentHash =>
      decide (¬ contentHash ∈ inventory)) -> k ∈ hashes :=
    fun k hk => (List.mem_filter.mp hk).left
  rcases pushAll_offers hpush (s := ⟨n, ListedPeer.mk none inventory accepts [], ∅⟩) hreadable
    hlisted with ⟨m, failed, hpushed, _⟩
  have hpeer : (pushMissingTo r n (ListedPeer.mk none inventory accepts []) peerId hashes
      readings).peer.offered = (hashes.filter (fun contentHash =>
        decide (¬ contentHash ∈ inventory))).filterMap n.fragments.get? := by
    show (pushAll readings _ (Pushing.mk n (ListedPeer.mk none inventory accepts [])
      ∅)).2.peer.offered = _
    rw [hpushed]
    rfl
  unfold pushedKeys
  rw [hpeer, mem_keys_filterMap_iff hreadable.invariant, List.mem_filter, decide_eq_true_iff,
    Dict.get?_eq_none_iff, and_assoc]

theorem mem_pushedKeys_buckets_iff {remote : Fin buckets -> BitVec 64}
    (hverified : r.verifiedOn peerId = Dict.empty)
    (hstop : forall bucket, readings.stopsAtBucket bucket = false) (k : String) :
    k ∈ pushedKeys r n (some remote) inventory accepts peerId hashes readings <->
      Stale n hashes inventory k := by
  have hfresh : forall entry, entry ∈ (groups n hashes).entries ->
      (r.verifiedOn peerId).get? entry.1 = none := by
    intro entry _
    rw [hverified]
    exact Dict.get?_empty _
  have hlisted : forall entry, entry ∈ (groups n hashes).entries ->
      forall k v, entry.2.get? k = some v -> k ∈ hashes :=
    fun entry hentry k v hv => ((get?_of_mem_groups hentry).mp hv).left
  have hpeer := repairBuckets_offers hpush hstop remote (groups n hashes).nodup
    hlisted (s := startRepair r n (ListedPeer.mk (some remote) inventory accepts []) peerId)
    hreadable hfresh
  have hoffered : (pushMissingTo r n (ListedPeer.mk (some remote) inventory accepts []) peerId
      hashes readings).peer.offered = ((groups n hashes).entries.flatMap (fun entry =>
        missingFrom (bucketInventory inventory entry.1) entry.2)).filterMap
          n.fragments.get? := by
    rw [List.filterMap_flatMap]
    exact congrArg ListedPeer.offered hpeer
  unfold pushedKeys
  rw [hoffered, mem_keys_filterMap_iff hreadable.invariant, mem_missing_groups_iff]
  exact and_iff_left_of_imp (fun hstale => by
    rcases hstale with ⟨_, f, hf, _⟩
    exact Dict.mem_of_get? hf)

end

end Passes

section Sample

attribute [local instance] InventoryHash.constant

def revisedCopy : Fragment where
  toFragmentFields := { publicCopy.toFragmentFields with versionId := 2 }
  accepted := (FragmentFields.postInit_eq_ok_iff _).mpr
    ⟨publicCopy.payloadSize_nonneg, zero_le_one, ⟨le_refl _, zero_le_one⟩, one_le_two,
      publicCopy.tenantId_valid, le_refl _, Or.inl rfl⟩

def revisedHolder : Node InProcessBytes Empty WeightedLRU :=
  (Node.create (Config.default "n0" 100)).call
    (.mutation (.store revisedCopy true Caller.internal 1 1))

def calmReadings : PassReadings where
  thread := 0
  stopsAtBucket _ := false
  stopsAtPush _ := false
  ownTimes _ := ⟨1, 1, 1⟩
  times _ := ⟨1, 1, 1⟩
  otherTimes _ := ⟨1, 1, 1⟩

theorem revisedHolder_readable : Readable revisedHolder ["h", "g"] calmReadings where
  invariant := Node.call_invariant (Node.create_invariant _) _
  right := cachesRight_keptByCalls.call (Node.create_invariant _)
    (Node.create_sound _).right _
  live k f hk hf := by
    have hentry := (Dict.get?_eq_some_iff _ _ _).mp hf
    have hentries : revisedHolder.fragments.entries = [("h", revisedCopy)] := by
      decide +kernel
    rw [hentries, List.mem_singleton] at hentry
    cases hentry
    exact ⟨hf, Or.inl rfl, 1, by decide +kernel, by decide +kernel⟩
  absent k hk _ := by
    rcases List.mem_pair.mp hk with rfl | rfl
    · exact ⟨rfl, by decide +kernel⟩
    · exact ⟨rfl, by decide +kernel⟩

end Sample

end Transport
end Membrane
