import Membrane.Serving.Calls
import Membrane.Store.CacheCoherence

/-!
# Expiry times in the read caches

A lookup computes the expiry of its entry from the insertion time it reads.  A
lookup that sees a fragment before its insertion time is written takes zero
instead, and its cache keeps that expiry.  Reads of the live fragment through
the cache are then answered as absent.
-/

namespace Membrane
namespace Serving

open Foundation Data Store

/-!
# Right expiries
-/

/-- An entry that names the resident fragment and expires its lifetime after its
insertion. -/
def expiresRight : EntryRule := fun f time entry =>
  f = some entry.1 ∧ exists inserted, time = some inserted ∧ entry.2 = inserted + entry.1.ttl

theorem expiresRight_lawful : expiresRight.Lawful where
  resident h := h.left
  timed h _ := by
    rcases h.right with ⟨inserted, hnone, _⟩
    cases hnone

variable {t : FragmentTable} {k c : String} {entry : CacheEntry} {inserted : ℚ} {f : Fragment}

theorem expiresRight_at_iff :
    expiresRight.At t k entry <->
      exists f inserted, t.fragments.get? k = some f ∧
        t.insertionTimes.get? k = some inserted ∧ entry = (f, inserted + f.ttl) := by
  constructor
  · intro h
    rcases h with ⟨hf, inserted, htime, hexpiry⟩
    exact ⟨entry.1, inserted, hf, htime, Prod.ext rfl hexpiry⟩
  · intro h
    rcases h with ⟨f, inserted, hf, htime, hentry⟩
    subst hentry
    exact ⟨hf, inserted, htime, rfl⟩

theorem entryFor_of_timed (htime : t.insertionTimes.get? k = some inserted) (f : Fragment) :
    t.entryFor k f = (f, inserted + f.ttl) := by
  unfold FragmentTable.entryFor Dict.getD
  rw [htime]
  rfl

/-- No lookup that is going to keep its entry reads the insertion time of a key
before the insertion of the key has written it. -/
def ReadsTimed (s : Threads) : Event -> Prop
  | .read thread =>
    match s.reader thread with
    | .timing k _ removals _ => removals = s.table.removals -> ¬ s.writer.Untimed k
    | _ => True
  | _ => True

theorem ReadsTimed.fillsRight {s : Threads} {event : Event} (h : ReadsTimed s event)
    (hs : Coherent expiresRight s) : s.FillsRight expiresRight event := by
  cases event with
  | read thread =>
    apply Reader.timesRight_of_timing
    intro k now removals f hreader hresident hstale
    have hsound := hs.readers thread
    unfold ReadsTimed at h
    simp only at h
    rw [hreader] at h hsound
    have hcounter : removals = s.table.removals := by
      have hle : removals ≤ s.table.removals := hsound.left
      have hnot : ¬ removals < s.table.removals := fun hless => hstale (Or.inl hless)
      omega
    rcases hs.locked.timed k f hresident with ⟨inserted, htime⟩ | huntimed
    · exact expiresRight_at_iff.mpr
        ⟨f, inserted, hresident, htime, entryFor_of_timed htime f⟩
    · exact absurd huntimed (h hcounter)
  | lookup thread k now | store f now isPrimary | remove k | write thread => trivial

/-!
# Reads of live fragments
-/

def EntriesRight (t : FragmentTable) (k : String) : Prop :=
  forall thread entry, t.cached thread k = some entry -> expiresRight.At t k entry

theorem lookup_of_entriesRight (hright : EntriesRight t k) (hf : t.fragments.get? k = some f)
    (htime : t.insertionTimes.get? k = some inserted) (thread : Thread) (now : Option ℚ) :
    (t.lookup thread k now).1 = some (f, inserted + f.ttl) := by
  cases hcached : (t.threadCache thread).cached thread k with
  | some entry =>
    rw [FragmentTable.lookup_of_cached now hcached]
    rw [t.cached_threadCache thread thread k] at hcached
    rcases expiresRight_at_iff.mp (hright thread entry hcached) with
      ⟨g, time, hg, htime', hentry⟩
    rw [hf] at hg
    rw [htime] at htime'
    cases hg
    cases htime'
    rw [hentry]
  | none =>
    rw [FragmentTable.lookup_of_found now hcached hf, entryFor_of_timed htime f]

theorem cached_lookup_cases {thread other : Thread} {now : Option ℚ}
    (h : (t.lookup thread k now).2.cached other c = some entry) :
    t.cached other c = some entry ∨
      c = k ∧ exists f, t.fragments.get? k = some f ∧ entry = t.entryFor k f := by
  cases hcached : (t.threadCache thread).cached thread k with
  | some hit =>
    rw [FragmentTable.lookup_of_cached now hcached, FragmentTable.cached_recordRead,
      FragmentTable.cached_threadCache] at h
    exact Or.inl h
  | none =>
    cases hf : t.fragments.get? k with
    | none =>
      rw [FragmentTable.lookup_of_absent now hcached hf,
        FragmentTable.cached_threadCache] at h
      exact Or.inl h
    | some f =>
      rw [FragmentTable.lookup_of_found now hcached hf, FragmentTable.cached_recordRead,
        FragmentTable.cached_fillCache] at h
      split_ifs at h with hfilled
      · cases h
        exact Or.inr ⟨hfilled.right, f, rfl, rfl⟩
      · left
        rw [← t.cached_threadCache thread other c]
        exact FragmentTable.cached_of_clearFullCache _ thread other c h

theorem cached_of_pop [InventoryHash] {t' : FragmentTable} (hpop : t.pop k = some (f, t'))
    (thread : Thread) (c : String) (h : t'.cached thread c = some entry) :
    c ≠ k ∧ t.cached thread c = some entry := by
  have hcaches : t'.caches = t.caches.mapValues (fun cache => cache.drop k) := by
    rcases (FragmentTable.pop_eq_some_iff t k f t').mp hpop with ⟨_, ht'⟩
    rw [ht']
    rfl
  unfold FragmentTable.cached FragmentTable.cacheOf Dict.getD at h ⊢
  rw [hcaches, Dict.get?_mapValues] at h
  cases hcache : t.caches.get? thread with
  | none =>
    rw [hcache] at h
    cases h
  | some cache =>
    rw [hcache] at h
    change (cache.entries.erase k).get? c = some entry at h
    rw [Dict.get?_erase] at h
    split_ifs at h with hkey
    exact ⟨hkey, h⟩

theorem isExpired_eq_false_iff (hf : t.fragments.get? k = some f)
    (htime : t.insertionTimes.get? k = some inserted) (now : ℚ) :
    t.isExpired k now = false <-> now ≤ inserted + f.ttl := by
  unfold FragmentTable.isExpired Dict.getD
  rw [hf, htime]
  simp only [Option.getD_some, decide_eq_false_iff_not, not_lt]
  exact sub_le_iff_le_add'

namespace Node

variable {sigma tau pi : Type}

structure Live (n : Node sigma tau pi) (k : String) (f : Fragment) (caller : Caller)
    (now : ℚ) : Prop where
  resident : n.fragments.get? k = some f
  readable : caller.tenant = "" ∨ canRead f.tenantId caller = true
  unexpired : exists inserted, n.table.insertionTimes.get? k = some inserted ∧
    now ≤ inserted + f.ttl

variable {n n' : Node sigma tau pi}

/-- A read of another key leaves what is cached and held for this one in place. -/
structure Undisturbed (n n' : Node sigma tau pi) (k : String) : Prop where
  resident : n'.fragments.get? k = n.fragments.get? k
  time : n'.table.insertionTimes.get? k = n.table.insertionTimes.get? k
  cached : forall thread entry, n'.table.cached thread k = some entry ->
    n.table.cached thread k = some entry

variable {caller : Caller} {times : ReadTimes}

theorem Undisturbed.live {now : ℚ} (h : Undisturbed n n' k) (hlive : n.Live k f caller now) :
    n'.Live k f caller now where
  resident := h.resident.trans hlive.resident
  readable := hlive.readable
  unexpired := by
    rw [h.time]
    exact hlive.unexpired

theorem Undisturbed.entriesRight (h : Undisturbed n n' k) (hright : EntriesRight n.table k) :
    EntriesRight n'.table k := by
  intro thread entry hentry
  have hsame : n'.table.fragments.get? k = n.table.fragments.get? k := h.resident
  unfold EntryRule.At
  rw [hsame, h.time]
  exact hright thread entry (h.cached thread entry hentry)

theorem withLookup_undisturbed (hkey : c ≠ k) (thread : Thread) (now : Option ℚ) :
    Undisturbed n (n.withLookup thread k now) c := by
  have hcaches := n.table.lookup_cachesOnly thread k now
  have hfragments : (n.table.lookup thread k now).2.fragments = n.table.fragments := by
    rw [hcaches]
  have htimes : (n.table.lookup thread k now).2.insertionTimes =
      n.table.insertionTimes := by
    rw [hcaches]
  exact
    { resident := congrArg (fun fragments => fragments.get? c) hfragments
      time := congrArg (fun times => times.get? c) htimes
      cached := fun _ _ h => (cached_lookup_cases h).resolve_right (fun hfilled =>
        hkey hfilled.left) }

variable [InventoryHash] [ContentStore sigma]

theorem removeFragment_undisturbed (hkey : c ≠ k)
    (hremove : n.removeFragment k = .ok (f, n')) : Undisturbed n n' c := by
  rcases removeFragment_eq_ok hremove with ⟨table, hpop, _, hn'⟩
  have htable : n'.table = table := by rw [hn']; rfl
  have htimes : table.insertionTimes = n.table.insertionTimes.erase k := by
    rcases (FragmentTable.pop_eq_some_iff _ k f table).mp hpop with ⟨_, hpopped⟩
    rw [hpopped]
    rfl
  constructor
  · rw [(removeFragment_fragments hremove).right]
    exact Dict.get?_erase_of_ne _ hkey
  · rw [htable, htimes]
    exact Dict.get?_erase_of_ne _ hkey
  · intro thread entry hentry
    rw [htable] at hentry
    exact (cached_of_pop hpop thread c hentry).right

theorem readKey_undisturbed (hkey : c ≠ k) (thread : Thread) (caller : Caller) (now : ℚ) :
    Undisturbed n (n.readKey thread k caller now).2 c := by
  have hseen := withLookup_undisturbed hkey thread (some now) (n := n)
  rcases n.readKey_cases thread k caller now with hsame | ⟨_, f, m, hremove, hread⟩
  · rw [hsame]
    exact hseen
  · have hremoved := removeFragment_undisturbed hkey hremove
    rw [hread]
    exact
      { resident := hremoved.resident.trans hseen.resident
        time := hremoved.time.trans hseen.time
        cached := fun other entry h =>
          hseen.cached other entry (hremoved.cached other entry h) }

theorem readKey_of_live {now : ℚ} (hright : EntriesRight n.table k)
    (hlive : n.Live k f caller now) (thread : Thread) :
    n.readKey thread k caller now = (.ok (some f), n.withLookup thread k (some now)) := by
  rcases hlive.unexpired with ⟨inserted, htime, hnow⟩
  have hlookup := lookup_of_entriesRight hright hlive.resident htime thread (some now)
  unfold readKey
  rw [hlookup]
  unfold answerRead
  simp only
  rw [if_neg, if_neg (not_lt.mpr hnow)]
  intro hrefused
  rcases hlive.readable with hinternal | hallowed
  · exact hrefused.left hinternal
  · rw [hallowed] at hrefused
    cases hrefused.right

variable [LowerTier tau] [EvictionPolicy pi]

section

variable (hright : EntriesRight n.table k) (hlive : n.Live k f caller times.read)

include hright hlive

theorem retrieveKey_of_live (thread : Thread) :
    n.retrieveKey thread k caller times =
      (.ok (some f), n.withLookup thread k (some times.read)) := by
  have hresident : k ∈ n.fragments := Dict.mem_of_get? hlive.resident
  unfold retrieveKey
  rw [if_neg (fun h => h.right hresident)]
  exact readKey_of_live hright hlive thread

theorem retrieveDefault_of_live (thread : Thread) (otherTimes : ReadTimes) :
    n.retrieveDefault thread k caller times otherTimes =
      (.ok (some f), n.withLookup thread k (some times.read)) := by
  unfold retrieveDefault
  rw [retrieveKey_of_live hright hlive thread]

end

theorem retrieve_of_live (htier : n.lowerTier = none) (hright : EntriesRight n.table k)
    (hlive : n.Live k f caller times.read) (thread : Thread) (ownTimes otherTimes : ReadTimes) :
    (n.retrieve thread k caller ownTimes times otherTimes).1 ≠ .ok none := by
  unfold retrieve
  split_ifs with hseparator htenant
  · rw [retrieveKey_of_live hright hlive thread]
    intro h
    cases h
  · have hown : k ≠ fragmentKey caller.tenant k :=
      (fragmentKey_ne_payloadHash htenant.right k).symm
    have hundisturbed := readKey_undisturbed hown thread caller ownTimes.read (n := n)
    have hkey : n.retrieveKey thread (fragmentKey caller.tenant k) caller ownTimes =
        n.readKey thread (fragmentKey caller.tenant k) caller ownTimes.read := by
      unfold retrieveKey
      rw [if_neg (by simp [htier])]
    rw [hkey]
    rcases hresult : n.readKey thread (fragmentKey caller.tenant k) caller ownTimes.read with
      ⟨answer, read⟩
    rw [hresult] at hundisturbed
    cases answer with
    | error e =>
      intro h
      cases h
    | ok found =>
      cases found with
      | some g =>
        intro h
        cases h
      | none =>
        show (read.retrieveDefault thread k caller times otherTimes).1 ≠ _
        rw [retrieveDefault_of_live (hundisturbed.entriesRight hright)
          (hundisturbed.live hlive) thread otherTimes]
        intro h
        cases h
  · rw [retrieveDefault_of_live hright hlive thread otherTimes]
    intro h
    cases h

end Node

/-!
# Keys that no thread has cached
-/

theorem cached_recency (t : FragmentTable) (thread : Thread) (k : String) :
    t.recency.cached thread k = t.cached thread k := by
  unfold FragmentTable.cached FragmentTable.cacheOf FragmentTable.recency Dict.getD
  rw [Dict.get?_mapValues]
  cases t.caches.get? thread with
  | none => rfl
  | some cache => rfl

namespace Node

variable {sigma tau pi : Type} {n n' : Node sigma tau pi}

def Uncached (k : String) (n : Node sigma tau pi) : Prop :=
  forall thread, n.table.cached thread k = none

theorem Uncached.entriesRight (h : n.Uncached k) : EntriesRight n.table k := by
  intro thread entry hentry
  rw [h thread] at hentry
  cases hentry

theorem Uncached.of_caches (h : n.Uncached k) (hcaches : n'.table.caches = n.table.caches) :
    n'.Uncached k := by
  intro thread
  have hsame := h thread
  unfold FragmentTable.cached FragmentTable.cacheOf at hsame ⊢
  rw [hcaches]
  exact hsame

variable [InventoryHash] [ContentStore sigma] [LowerTier tau]

theorem uncached_keptByRemovals (k : String) :
    KeptByRemovals (fun n : Node sigma tau pi => n.Uncached k) := by
  apply keptByRemovals_of_table (fun _ t => forall thread, t.cached thread k = none)
  · intro _ t j f t' hpop h thread
    cases hentry : t'.cached thread k with
    | none => rfl
    | some entry =>
      have hold := (cached_of_pop hpop thread k hentry).right
      rw [h thread] at hold
      cases hold
  · exact fun _ t h thread => (cached_recency t thread k).trans (h thread)

variable [EvictionPolicy pi]

theorem store_uncached (h : n.Uncached k) (f : Fragment) (isPrimary : Bool) (caller : Caller)
    (now evictTime : ℚ) : (n.store f isPrimary caller now evictTime).2.Uncached k := by
  have hcharged : (n.charged f).Uncached k := h.of_caches (by rw [charged_table])
  exact (uncached_keptByRemovals k).store (fun m => m.Uncached k)
    (fun _ => payloadFault_of_total f) h hcharged (fun _ => hcharged.of_caches rfl)
    (fun _ => hcharged) (fun _ hroom => ⟨hroom, fun _ _ => hroom.of_caches rfl⟩)

end Node

/-!
# Runs
-/

def Idle (s : Threads) : Prop :=
  (forall thread, exists answer, s.reader thread = .returned answer) ∧ s.writer = .free

/-- The expiry of every cached entry is the insertion time of its key plus the
lifetime of the resident fragment. -/
def ExpiriesRight (t : FragmentTable) : Prop :=
  forall thread k entry, t.cached thread k = some entry ->
    exists f inserted, t.fragments.get? k = some f ∧
      t.insertionTimes.get? k = some inserted ∧ entry.2 = inserted + f.ttl

/-- No read of a live fragment is answered as absent. -/
structure ServesLive (sigma tau pi : Type) [InventoryHash] [ContentStore sigma]
    [LowerTier tau] [EvictionPolicy pi] (t : FragmentTable) : Prop where
  key : forall (n : Node sigma tau pi) thread k f caller (times : Node.ReadTimes),
    n.table = t -> n.Live k f caller times.read ->
    (n.retrieveKey thread k caller times).1 = .ok (some f)
  hash : forall (n : Node sigma tau pi) thread k f caller
    (ownTimes times otherTimes : Node.ReadTimes),
    n.table = t -> n.lowerTier = none -> n.Live k f caller times.read ->
    (n.retrieve thread k caller ownTimes times otherTimes).1 ≠ .ok none

section Runs

variable (sigma tau pi : Type) [InventoryHash] [ContentStore sigma]
variable [LowerTier tau] [EvictionPolicy pi]

theorem ServesLive.of_entriesRight (hright : forall k, EntriesRight t k) :
    ServesLive sigma tau pi t where
  key n thread k f caller times htable hlive := by
    have hentries := hright k
    rw [← htable] at hentries
    rw [Node.retrieveKey_of_live hentries hlive thread]
  hash n thread k f caller ownTimes times otherTimes htable htier hlive := by
    have hentries := hright k
    rw [← htable] at hentries
    exact Node.retrieve_of_live htier hentries hlive thread ownTimes otherTimes

/-- As long as no lookup reads an insertion time before it is written, the caches
hold right expiries and live fragments are found whenever no operation is under
way. -/
theorem run_expiriesRight {events : List Event}
    (htimed : Along Threads.step ReadsTimed Threads.create events) :
    Throughout Threads.step
      (fun s => Idle s -> ExpiriesRight s.table ∧ ServesLive sigma tau pi s.table)
      Threads.create events := by
  have hrun : Throughout Threads.step (Coherent expiresRight) Threads.create events :=
    throughout_of_along (Coherent expiresRight)
      (fun s event hs h => Threads.step_coherent expiresRight_lawful hs event
        (h.fillsRight hs)) (create_coherent expiresRight) htimed
  intro completed hleading hidle
  have hsettled : Threads.Settled (run Threads.step Threads.create completed) := by
    refine ⟨hidle.left, fun k hremoves => ?_⟩
    rw [hidle.right] at hremoves
    exact hremoves
  have hright : forall k, EntriesRight (run Threads.step Threads.create completed).table k :=
    fun k thread entry hentry =>
      Threads.Coherent.at_of_settled (hrun completed hleading) hsettled hentry
  constructor
  · intro thread k entry hentry
    rcases expiresRight_at_iff.mp (hright k thread entry hentry) with
      ⟨f, inserted, hf, htime, hsame⟩
    exact ⟨f, inserted, hf, htime, congrArg Prod.snd hsame⟩
  · exact ServesLive.of_entriesRight sigma tau pi hright

end Runs

/-!
# A lookup during an insertion
-/

section RacingLookup

attribute [local instance] InventoryHash.constant

def storeCopy : Event := .store firstCopy 100 true

def lookupCopy : Event := .lookup 0 firstCopy.key none

def orderly : List Event :=
  storeCopy :: (List.replicate 7 (.write 0) ++ lookupCopy :: List.replicate 9 (.read 0))

def racing : List Event :=
  .lookup 0 "other" none :: (List.replicate 4 (.read 0) ++
    [storeCopy, .write 0, lookupCopy] ++ List.replicate 9 (.read 0) ++
    List.replicate 6 (.write 0))

def racingNode : Node InProcessBytes Empty WeightedLRU :=
  { Node.create (Config.default "n0" 100) with
    table := (run Threads.step Threads.create racing).table }

theorem orderly_expiriesRight :
    Throughout Threads.step (fun s => Idle s -> ExpiriesRight s.table ∧
      ServesLive InProcessBytes Empty WeightedLRU s.table) Threads.create orderly := by
  apply run_expiriesRight
  refine ⟨trivial, trivial, trivial, trivial, trivial, trivial, trivial, trivial, trivial,
    trivial, trivial, trivial, trivial, ?_, trivial, trivial, trivial, trivial, trivial⟩
  intro _ h
  exact h

def readAt (now : ℚ) : Node.ReadTimes :=
  { promoted := now, evicted := now, read := now }

theorem racing_not_expiriesRight :
    ¬ Throughout Threads.step (fun s => Idle s -> ExpiriesRight s.table ∧
        ServesLive InProcessBytes Empty WeightedLRU s.table) Threads.create racing ∧
      racingNode.Live firstCopy.key firstCopy Caller.internal 100 ∧
      (racingNode.retrieve 0 firstCopy.key Caller.internal (readAt 100) (readAt 100)
        (readAt 100)).1 = .ok none := by
  have hresident : (run Threads.step Threads.create racing).table.fragments.get?
      firstCopy.key = some firstCopy := by decide +kernel
  have hinserted : (run Threads.step Threads.create racing).table.insertionTimes.get?
      firstCopy.key = some 100 := by decide +kernel
  refine ⟨?_, ⟨hresident, Or.inl rfl, 100, hinserted, by decide +kernel⟩, by decide +kernel⟩
  intro h
  have hothers : forall thread, thread ≠ 0 -> forall event, event ∈ racing ->
      ¬ event.Moves thread := by
    intro thread hthread event hevent
    simp only [racing, List.mem_cons, List.mem_append, List.mem_replicate,
      List.not_mem_nil, or_false] at hevent
    rcases hevent with rfl | ((⟨_, rfl⟩ | rfl | rfl | rfl) | ⟨_, rfl⟩) | ⟨_, rfl⟩
    all_goals first | exact Ne.symm hthread | exact id
  have hidle : Idle (run Threads.step Threads.create racing) := by
    refine ⟨fun thread => ?_, rfl⟩
    by_cases hthread : thread = 0
    · subst hthread
      exact ⟨some (firstCopy, _), rfl⟩
    · exact ⟨none, Threads.run_reader_of_not_moves (hothers thread hthread) _⟩
  have hright := (h racing (List.prefix_refl _) hidle).left
  rcases hright 0 firstCopy.key (firstCopy, 1) (by decide +kernel) with
    ⟨f, inserted, hf, htime, hexpiry⟩
  rw [hresident] at hf
  rw [hinserted] at htime
  cases hf
  cases htime
  exact absurd hexpiry (by decide +kernel)

end RacingLookup

end Serving
end Membrane
