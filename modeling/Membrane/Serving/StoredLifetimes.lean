import Membrane.Serving.UnlimitedLife

/-!
# Lifetimes since the last store

A fragment is served until its lifetime is over, counted from its insertion.  A promotion
inserts the fragment again, so the count starts anew with each one.  Only a fragment that
came back from the lower tier since a client stored it can be served for longer than its
lifetime after that store.
-/

namespace Membrane
namespace Serving

open Foundation Data Store

namespace Node

/-!
# Insertion times
-/

section Inserting

variable {sigma tau pi : Type} {now : ℚ} {times : ReadTimes}

/-- Every insertion time is within the bound of its key. -/
def InsertedWithin (n : Node sigma tau pi) (bound : String -> ℚ -> Prop) : Prop :=
  forall k inserted, n.table.insertionTimes.get? k = some inserted -> bound k inserted

variable {n m : Node sigma tau pi} {bound : String -> ℚ -> Prop} {k : String}

theorem InsertedWithin.of_table (h : n.InsertedWithin bound) (htable : m.table = n.table) :
    m.InsertedWithin bound := by
  intro k inserted htime
  rw [htable] at htime
  exact h k inserted htime

theorem InsertedWithin.mono {wider : String -> ℚ -> Prop} (h : n.InsertedWithin bound)
    (hwider : forall k inserted, bound k inserted -> wider k inserted) :
    n.InsertedWithin wider :=
  fun k inserted htime => hwider k inserted (h k inserted htime)

variable [InventoryHash]

theorem InsertedWithin.inserted (h : n.InsertedWithin bound) {f : Fragment}
    (hnow : bound f.key now) (isPrimary : Bool) :
    (n.inserted f isPrimary now).InsertedWithin bound := by
  intro k inserted htime
  change (n.table.insertionTimes.set f.key now).get? k = some inserted at htime
  rw [Dict.get?_set] at htime
  split_ifs at htime with hk
  · cases htime
    rw [hk]
    exact hnow
  · exact h k inserted htime

section

variable [PayloadStore sigma] [LowerTier tau]

theorem insertedWithin_keptByRemovals (bound : String -> ℚ -> Prop) :
    KeptByRemovals (fun m : Node sigma tau pi => m.InsertedWithin bound) := by
  apply keptByRemovals_of_table (fun _ t => forall k inserted,
    t.insertionTimes.get? k = some inserted -> bound k inserted)
  · intro _ t k f t' hpop h j inserted htime
    have htimes : t'.insertionTimes = t.insertionTimes.erase k := by
      rw [((FragmentTable.pop_eq_some_iff _ _ _ _).mp hpop).right]
      rfl
    rw [htimes, Dict.get?_erase] at htime
    split_ifs at htime
    exact h j inserted htime
  · exact fun _ _ h => h

end

variable [ContentStore sigma] [LowerTier tau]

theorem insertedWithin_keptByReads (bound : String -> ℚ -> Prop) :
    KeptByReads (fun m : Node sigma tau pi => m.InsertedWithin bound) where
  toKeptByRemovals := insertedWithin_keptByRemovals bound
  lookup m thread k now h j inserted htime := by
    change (m.table.lookup thread k now).2.insertionTimes.get? j = _ at htime
    rw [m.table.lookup_cachesOnly thread k now] at htime
    exact h j inserted htime
  taken _ _ h := h
  filled _ _ h := h

variable [EvictionPolicy pi]

theorem InsertedWithin.store (h : n.InsertedWithin bound) {f : Fragment}
    (hnow : bound f.key now) (isPrimary : Bool) (caller : Caller) (evictTime : ℚ) :
    (n.store f isPrimary caller now evictTime).2.InsertedWithin bound := by
  have hcharged : (n.charged f).InsertedWithin bound := h.of_table (n.charged_table f)
  exact (insertedWithin_keptByRemovals bound).store (fun m => m.InsertedWithin bound)
    (fun _ => payloadFault_of_total f) h hcharged (fun _ => hcharged) (fun _ => hcharged)
    (fun _ hroom => ⟨hroom, fun _ _ => hroom.inserted hnow isPrimary⟩)

end Inserting

/-!
# The time of an answer
-/

section Answers

variable {sigma tau pi : Type} [InventoryHash] [ContentStore sigma] {n : Node sigma tau pi}
  {k : String} {thread : Thread} {caller : Caller} {f : Fragment} {now : ℚ}

theorem readKey_lifetime (hn : n.Consistent) (hright : CachesRight n.table)
    (hanswer : (n.readKey thread k caller now).1 = .ok (some f)) :
    f.key = k ∧ exists inserted,
      (n.readKey thread k caller now).2.table.insertionTimes.get? k = some inserted ∧
        now ≤ inserted + f.ttl := by
  by_cases hk : k ∈ n.fragments
  · rcases (Dict.mem_iff_exists_get? _ _).mp hk with ⟨g, hg⟩
    rcases (Dict.mem_iff_exists_get? _ _).mp ((hn.bookkeeping.insertion k).mpr hk) with
      ⟨inserted, htime⟩
    have hlookup := lookup_of_entriesRight (hright k) hg htime thread (some now)
    unfold readKey answerRead at hanswer ⊢
    simp only [hlookup] at hanswer ⊢
    split_ifs at hanswer ⊢ with hrefused hpast hexpired
    · cases hanswer
    · split at hanswer
      · cases hanswer
      · cases hanswer
    · cases hanswer
    · cases hanswer
      refine ⟨hn.bookkeeping.keyed k _ hg, inserted, ?_, not_lt.mp hpast⟩
      show (n.table.lookup thread k (some now)).2.insertionTimes.get? k = some inserted
      rw [n.table.lookup_cachesOnly thread k (some now)]
      exact htime
  · rw [readKey_of_not_mem hright.cachedResident hk] at hanswer
    cases hanswer

variable [LowerTier tau] [EvictionPolicy pi]

theorem retrieveKey_lifetime {times : ReadTimes} (hn : n.Invariant)
    (hright : CachesRight n.table)
    (hanswer : (n.retrieveKey thread k caller times).1 = .ok (some f)) :
    f.key = k ∧ exists inserted,
      (n.retrieveKey thread k caller times).2.table.insertionTimes.get? k = some inserted ∧
        times.read ≤ inserted + f.ttl := by
  have hpromoted := cachesRight_keptByCalls.keptBySteps.promote ⟨hn, hright⟩ k
    (fun f _ => payloadFault_of_total f) times
  unfold retrieveKey at hanswer ⊢
  split_ifs at hanswer ⊢
  · cases hpromote : n.promote k times with
    | mk answer promoted =>
      rw [hpromote] at hpromoted
      rw [hpromote] at hanswer
      cases answer with
      | error e => cases hanswer
      | ok _ =>
        exact readKey_lifetime hpromoted.left.toConsistent hpromoted.right hanswer
  · exact readKey_lifetime hn.toConsistent hright hanswer

/-- A read answers with the fragment, which one of its key reads found at the time. -/
def FindsAt (n : Node sigma tau pi) (f : Fragment) (now : ℚ) : Call -> Prop
  | .mutation _ => False
  | .retrieve thread contentHash caller ownTimes times otherTimes =>
    (n.retrieve thread contentHash caller ownTimes times otherTimes).1 =
        .ok (some f) ∧
      exists r, r ∈ n.keyReads thread contentHash caller ownTimes times otherTimes ∧
        (r.node.retrieveKey thread r.key caller r.times).1 = .ok (some f) ∧
        r.times.read = now

end Answers

/-!
# The clock of a read
-/

section Readings

variable {sigma tau pi : Type} {n : Node sigma tau pi} {r : KeyRead sigma tau pi}
  {contentHash : String} {caller : Caller} {times otherTimes : ReadTimes}

theorem otherReads_times (hr : r ∈ n.otherReads contentHash caller otherTimes) :
    r.times = otherTimes := by
  unfold otherReads at hr
  split_ifs at hr
  · cases hr
  · split at hr
    · cases hr
    · rw [List.mem_singleton.mp hr]

variable [InventoryHash] [PayloadStore sigma] [LowerTier tau] [EvictionPolicy pi]
  {thread : Thread} {ownTimes : ReadTimes}

theorem defaultReads_times (hr : r ∈ n.defaultReads thread contentHash caller times otherTimes) :
    r.times = times ∨ r.times = otherTimes := by
  rcases List.mem_cons.mp hr with hr | hr
  · rw [hr]
    exact Or.inl rfl
  · split at hr
    · split_ifs at hr
      · exact Or.inr (otherReads_times hr)
      · cases hr
    · cases hr

theorem keyReads_times
    (hr : r ∈ n.keyReads thread contentHash caller ownTimes times otherTimes) :
    r.times = ownTimes ∨ r.times = times ∨ r.times = otherTimes := by
  unfold keyReads at hr
  split_ifs at hr
  · rw [List.mem_singleton.mp hr]
    exact Or.inr (Or.inl rfl)
  · rcases List.mem_cons.mp hr with hr | hr
    · rw [hr]
      exact Or.inl rfl
    · split at hr
      · exact Or.inr (defaultReads_times hr)
      · cases hr
  · exact Or.inr (defaultReads_times hr)

/-- The key of the fragment that a read of a key takes from the lower tier. -/
def KeyRead.broughtBack (r : KeyRead sigma tau pi) : Option String :=
  if r.key ∈ r.node.fragments then none
  else (r.node.fetched r.key).map (fun item => item.1.key)

end Readings

end Node

/-!
# Runs of a node with the times of its stores
-/

def Call.readings : Call -> List ℚ
  | .mutation (.store _ _ _ now evictTime) => [now, evictTime]
  | .mutation (.removeFragment _) => []
  | .mutation (.evict _ now) => [now]
  | .mutation (.sweepExpired now) => [now]
  | .retrieve _ _ _ ownTimes times otherTimes =>
    [ownTimes.promoted, ownTimes.evicted, ownTimes.read, times.promoted, times.evicted,
      times.read, otherTimes.promoted, otherTimes.evicted, otherTimes.read]

/-- A node, the readings of the clock so far, for each key the time of the last store by a
client that was accepted, and the keys whose fragments came back from the lower tier since
then. -/
structure Dated (sigma tau pi : Type) where
  node : Node sigma tau pi
  elapsed : List ℚ
  stored : Dict String ℚ
  returned : List String

namespace Dated

section Runs

variable {sigma tau pi : Type} {now : ℚ}

def Timely (s : Dated sigma tau pi) (c : Call) : Prop :=
  forall earlier, earlier ∈ s.elapsed -> forall now, now ∈ c.readings -> earlier ≤ now

instance (s : Dated sigma tau pi) (c : Call) : Decidable (s.Timely c) :=
  inferInstanceAs (Decidable (forall earlier, earlier ∈ s.elapsed -> _))

variable [InventoryHash] [ContentStore sigma] [LowerTier tau] [EvictionPolicy pi]

def storedAfter (s : Dated sigma tau pi) : Call -> Dict String ℚ
  | .mutation (.store f isPrimary caller now evictTime) =>
    if (s.node.store f isPrimary caller now evictTime).1 = .ok true then
      s.stored.set f.key now
    else s.stored
  | _ => s.stored

def returnedAfter (s : Dated sigma tau pi) : Call -> List String
  | .mutation (.store f isPrimary caller now evictTime) =>
    if (s.node.store f isPrimary caller now evictTime).1 = .ok true then
      s.returned.filter (fun k => k ≠ f.key)
    else s.returned
  | .mutation _ => s.returned
  | .retrieve thread contentHash caller ownTimes times otherTimes =>
    s.returned ++ (s.node.keyReads thread contentHash caller ownTimes times
      otherTimes).filterMap Node.KeyRead.broughtBack

def call (s : Dated sigma tau pi) (c : Call) : Dated sigma tau pi :=
  { node := s.node.call c
    elapsed := s.elapsed ++ c.readings
    stored := s.storedAfter c
    returned := s.returnedAfter c }

/-- The call answers at no time with a fragment that a client stored last before that time
less the lifetime of the fragment. -/
def WithinLifetime (s : Dated sigma tau pi) (c : Call) : Prop :=
  forall f now, s.node.FindsAt f now c ->
    forall last, s.stored.get? f.key = some last -> now - f.ttl ≤ last

/-- The call answers with a fragment that came back from the lower tier, in this call or
since its last store by a client, only within the lifetime that began with that store. -/
def Prompt (s : Dated sigma tau pi) (c : Call) : Prop :=
  forall f now, s.node.FindsAt f now c -> f.key ∈ s.returnedAfter c ->
    forall last, s.stored.get? f.key = some last -> now ≤ last + f.ttl

/-- The bound of an insertion time: a reading of the clock, and not after the last store
unless the fragment came back since. -/
def Bound (s : Dated sigma tau pi) (k : String) (inserted : ℚ) : Prop :=
  inserted ∈ s.elapsed ∧
    (¬ k ∈ s.returned -> forall last, s.stored.get? k = some last -> inserted ≤ last)

structure Sound (s : Dated sigma tau pi) : Prop where
  invariant : s.node.Invariant
  right : CachesRight s.node.table
  inserted : s.node.InsertedWithin s.Bound

variable {s : Dated sigma tau pi}

section

variable {thread : Thread} {contentHash : String} {caller : Caller}
  {ownTimes times otherTimes : Node.ReadTimes}

theorem bound_of_promotes {r : Node.KeyRead sigma tau pi}
    (hr : r ∈ s.node.keyReads thread contentHash caller ownTimes times otherTimes)
    (habsent : ¬ r.key ∈ r.node.fragments) {f : Fragment}
    (hpromotes : r.node.Promotes r.key f) :
    (s.call (.retrieve thread contentHash caller ownTimes times otherTimes)).Bound
      f.key r.times.promoted := by
  rcases hpromotes with ⟨tier, payload, htier, hpromoted⟩
  constructor
  · apply List.mem_append_right
    rcases Node.keyReads_times hr with htimes | htimes | htimes
    · rw [htimes]
      simp [Call.readings]
    · rw [htimes]
      simp [Call.readings]
    · rw [htimes]
      simp [Call.readings]
  · intro hkept
    have hback : r.broughtBack = some f.key := by
      unfold Node.KeyRead.broughtBack Node.fetched
      rw [if_neg habsent, htier, Option.bind_some, hpromoted]
      rfl
    exact absurd (List.mem_append_right _ (List.mem_filterMap.mpr ⟨r, hr, hback⟩)) hkept

theorem keyRead_bound :
    forall r, r ∈ s.node.keyReads thread contentHash caller ownTimes times otherTimes ->
      r.node.Invariant ∧ CachesRight r.node.table ∧ r.node.InsertedWithin (s.call
        (.retrieve thread contentHash caller ownTimes times otherTimes)).Bound ->
      (r.node.retrieveKey thread r.key caller r.times).2.Invariant ∧
        CachesRight (r.node.retrieveKey thread r.key caller r.times).2.table ∧
        (r.node.retrieveKey thread r.key caller r.times).2.InsertedWithin (s.call
          (.retrieve thread contentHash caller ownTimes times otherTimes)).Bound := by
  intro r hr hm
  have hkept := cachesRight_keptByCalls.keptBySteps.retrieveKey ⟨hm.left, hm.right.left⟩
    thread r.key caller (fun f _ => Node.payloadFault_of_total f) r.times
  refine ⟨hkept.left, hkept.right, ?_⟩
  exact (Node.insertedWithin_keptByReads _).retrieveKey hm.right.right thread r.key caller
    (fun habsent m f hpromotes hinserted =>
      hinserted.store (bound_of_promotes hr habsent hpromotes) _ _ _)

end

section

variable (h : s.Sound)

include h

theorem Sound.bound_call {c : Call} (hstored : s.storedAfter c = s.stored)
    (hreturned : forall k, k ∈ s.returned -> k ∈ s.returnedAfter c) :
    s.node.InsertedWithin (s.call c).Bound := by
  refine h.inserted.mono (fun k inserted hbound => ?_)
  refine ⟨List.mem_append_left _ hbound.left, ?_⟩
  show ¬ k ∈ s.returnedAfter c ->
    forall last, (s.storedAfter c).get? k = some last -> inserted ≤ last
  rw [hstored]
  exact fun hkept => hbound.right (fun hback => hkept (hreturned k hback))

theorem Sound.store {f : Fragment} {isPrimary : Bool} {caller : Caller}
    {evictTime : ℚ} (htimely : s.Timely (.mutation (.store f isPrimary caller now evictTime))) :
    (s.node.store f isPrimary caller now evictTime).2.InsertedWithin
      (s.call (.mutation (.store f isPrimary caller now evictTime))).Bound := by
  by_cases haccepted : (s.node.store f isPrimary caller now evictTime).1 = .ok true
  · have hstored : (s.call (.mutation (.store f isPrimary caller now evictTime))).stored =
        s.stored.set f.key now := if_pos haccepted
    have hreturned : (s.call (.mutation (.store f isPrimary caller now evictTime))).returned =
        s.returned.filter (fun k => k ≠ f.key) := if_pos haccepted
    have hbefore : s.node.InsertedWithin
        (s.call (.mutation (.store f isPrimary caller now evictTime))).Bound := by
      refine h.inserted.mono (fun k inserted hbound => ?_)
      refine ⟨List.mem_append_left _ hbound.left, ?_⟩
      intro hkept last hlast
      rw [hstored, Dict.get?_set] at hlast
      split_ifs at hlast with hk
      · cases hlast
        exact htimely inserted hbound.left now List.mem_cons_self
      · refine hbound.right (fun hback => hkept ?_) last hlast
        rw [hreturned]
        exact List.mem_filter.mpr ⟨hback, decide_eq_true hk⟩
    apply hbefore.store
    refine ⟨List.mem_append_right _ List.mem_cons_self, ?_⟩
    intro _ last hlast
    rw [hstored, Dict.get?_set_self] at hlast
    cases hlast
    exact le_refl now
  · have hreturned : s.returnedAfter (.mutation (.store f isPrimary caller now evictTime)) =
        s.returned := if_neg haccepted
    have hbefore := h.bound_call
      (c := .mutation (.store f isPrimary caller now evictTime)) (if_neg haccepted)
      (fun k hback => hreturned ▸ hback)
    rcases Node.store_cases h.invariant f isPrimary caller now evictTime with
      ⟨_, _, hsame⟩ | ⟨_, _, hstore⟩ | ⟨_, _, _, hstore⟩ | ⟨_, _, _, _, _, _, _, _, _, hstore⟩
    · rw [hsame]
      exact hbefore
    · rw [hstore]
      exact hbefore.of_table (s.node.charged_table f)
    · rw [hstore] at haccepted
      exact absurd rfl haccepted
    · rw [hstore] at haccepted
      exact absurd rfl haccepted

theorem Sound.mutate {m : Mutation} (htimely : s.Timely (.mutation m)) :
    (s.node.mutate m).InsertedWithin (s.call (.mutation m)).Bound := by
  have hkept : Node.KeptByRemovals (fun n : Node sigma tau pi =>
      n.InsertedWithin (s.call (.mutation m)).Bound) :=
    Node.insertedWithin_keptByRemovals _
  cases m with
  | store f isPrimary caller now evictTime => exact h.store htimely
  | removeFragment k =>
    exact hkept.removeFragment
      (h.bound_call (c := .mutation (.removeFragment k)) rfl (fun _ hback => hback)) k
  | evict targetBytes now =>
    exact hkept.evict (h.bound_call (c := .mutation (.evict targetBytes now)) rfl
      (fun _ hback => hback)) targetBytes now
  | sweepExpired now =>
    exact hkept.sweepExpired (h.bound_call (c := .mutation (.sweepExpired now)) rfl
      (fun _ hback => hback)) now

theorem Sound.bound_retrieve (thread : Thread) (contentHash : String) (caller : Caller)
    (ownTimes times otherTimes : Node.ReadTimes) :
    s.node.InsertedWithin (s.call
      (.retrieve thread contentHash caller ownTimes times otherTimes)).Bound :=
  h.bound_call rfl (fun _ hback => List.mem_append_left _ hback)

theorem Sound.call {c : Call} (htimely : s.Timely c) : (s.call c).Sound where
  invariant := Node.call_invariant h.invariant c
  right := cachesRight_keptByCalls.call h.invariant h.right c
  inserted := by
    cases c with
    | mutation m => exact h.mutate htimely
    | retrieve thread contentHash caller ownTimes times otherTimes =>
      have hread := Node.retrieve_of_reads (fun read => read.2.Invariant ∧
        CachesRight read.2.table ∧ read.2.InsertedWithin (s.call
          (.retrieve thread contentHash caller ownTimes times otherTimes)).Bound)
        keyRead_bound ⟨h.invariant, h.right, h.bound_retrieve _ _ _ _ _ _⟩
      exact hread.right.right.right

/-- What a read finds was inserted so late that its lifetime is not over, and not after the
last store unless it came back. -/
theorem Sound.findsAt_lifetime {c : Call} {f : Fragment} (hfinds : s.node.FindsAt f now c)
    (hkept : ¬ f.key ∈ s.returnedAfter c) {last : ℚ}
    (hlast : s.stored.get? f.key = some last) : now ≤ last + f.ttl := by
  cases c with
  | mutation m => cases hfinds
  | retrieve thread contentHash caller ownTimes times otherTimes =>
    rcases hfinds with ⟨_, r, hr, hanswer, rfl⟩
    have hmet := Node.retrieve_of_reads (fun read => read.2.Invariant ∧
      CachesRight read.2.table ∧ read.2.InsertedWithin (s.call
        (.retrieve thread contentHash caller ownTimes times otherTimes)).Bound)
      keyRead_bound ⟨h.invariant, h.right, h.bound_retrieve _ _ _ _ _ _⟩
    have hnode := hmet.left r hr
    have hafter := keyRead_bound r hr hnode
    rcases Node.retrieveKey_lifetime hnode.left hnode.right.left hanswer with
      ⟨hkey, inserted, htime, hread⟩
    have hbound := (hafter.right.right r.key inserted htime).right (hkey ▸ hkept) last
      (hkey ▸ hlast)
    exact hread.trans (add_le_add hbound (le_refl f.ttl))

theorem Sound.withinLifetime_iff (c : Call) : s.WithinLifetime c <-> s.Prompt c := by
  constructor
  · intro hwithin f now hfinds _ last hlast
    exact sub_le_iff_le_add.mp (hwithin f now hfinds last hlast)
  · intro hprompt f now hfinds last hlast
    apply sub_le_iff_le_add.mpr
    by_cases hback : f.key ∈ s.returnedAfter c
    · exact hprompt f now hfinds hback last hlast
    · exact h.findsAt_lifetime hfinds hback hlast

end

def create (config : Config sigma tau pi) : Dated sigma tau pi :=
  { node := Node.create config, elapsed := [], stored := Dict.empty, returned := [] }

/-- With a clock that does not run backwards, every read answers within the lifetime since
the last store by a client exactly when those reads do that answer with a fragment which
came back from the lower tier since that store. -/
theorem run_withinLifetime_iff (config : Config sigma tau pi) (calls : List Call)
    (htimely : Along call Timely (create config) calls) :
    Along call WithinLifetime (create config) calls <->
      Along call Prompt (create config) calls := by
  have hstart : (create config).Sound :=
    { invariant := Node.create_invariant config
      right := (Node.create_sound config).right
      inserted := fun k inserted h => by cases h }
  constructor
  · intro hwithin
    exact along_of_along Sound (fun s c hs hc => hs.call hc.left)
      (fun s c hs hc => (hs.withinLifetime_iff c).mp hc.right) hstart (htimely.and hwithin)
  · intro hprompt
    exact along_of_along Sound (fun s c hs hc => hs.call hc.left)
      (fun s c hs hc => (hs.withinLifetime_iff c).mpr hc.right) hstart (htimely.and hprompt)

end Runs

section Restarting

attribute [local instance] InventoryHash.constant FragmentCodec.unreadable

def readingAt (now : ℚ) : Call :=
  .retrieve 0 "acme:h" (Node.member "acme") (readAt now) (readAt now) (readAt now)

def started : Dated InProcessBytes (WarmTier InProcessBytes) WeightedLRU :=
  create (Node.warmConfig publicOther)

/-- The fragment lives for one time unit, leaves memory at the end of it and is read back
from the warm tier at the same time. -/
theorem promotedRead_withinLifetime :
    Along call WithinLifetime started
      [Node.storing acmeCopy, .mutation (.evict 60 2), readingAt 2] := by
  have htimely : Along call Timely started
      [Node.storing acmeCopy, .mutation (.evict 60 2), readingAt 2] :=
    ⟨by decide +kernel, by decide +kernel, by decide +kernel, trivial⟩
  refine (run_withinLifetime_iff _ _ htimely).mpr ⟨?_, ?_, ?_, trivial⟩
  · intro f now hfinds
    cases hfinds
  · intro f now hfinds
    cases hfinds
  · rintro f now ⟨hanswer, r, hr, _, rfl⟩ _ last hlast
    have hfound : ((run call started [Node.storing acmeCopy,
        .mutation (.evict 60 2)]).node.retrieve 0 "acme:h" (Node.member "acme") (readAt 2)
        (readAt 2) (readAt 2)).1 = .ok (some acmeCopy) := by
      decide +kernel
    have hf : f = acmeCopy := Option.some.inj (Except.ok.inj (hanswer.symm.trans hfound))
    have htime : r.times.read = 2 := by
      rw [List.mem_singleton.mp hr]
      rfl
    have hstored : (run call started [Node.storing acmeCopy,
        .mutation (.evict 60 2)]).stored.get? acmeCopy.key = some 1 := by
      decide +kernel
    rw [hf] at hlast ⊢
    have hlast : last = 1 := Option.some.inj (hlast.symm.trans hstored)
    rw [htime, hlast]
    decide +kernel

theorem promotedRead_not_withinLifetime :
    Along call Timely started
        [Node.storing acmeCopy, .mutation (.evict 60 2), readingAt 2, readingAt 3] ∧
      ¬ Along call WithinLifetime started
        [Node.storing acmeCopy, .mutation (.evict 60 2), readingAt 2, readingAt 3] := by
  refine ⟨⟨by decide +kernel, by decide +kernel, by decide +kernel, by decide +kernel,
    trivial⟩, ?_⟩
  rintro ⟨_, _, _, hread, _⟩
  have hfinds : (run call started [Node.storing acmeCopy, .mutation (.evict 60 2),
      readingAt 2]).node.FindsAt acmeCopy 3 (readingAt 3) :=
    ⟨by decide +kernel, _, List.mem_singleton.mpr rfl, by decide +kernel, rfl⟩
  exact absurd (hread acmeCopy 3 hfinds 1 (by decide +kernel)) (by decide +kernel)

end Restarting

end Dated

end Serving
end Membrane
