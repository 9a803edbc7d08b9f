import Membrane.Serving.SilentReads

/-!
# Properties of the table that every call keeps

A call changes the table of a node only by insertions, removals, refreshes, lookups and
merges of the buffered reads.  A property of the table that each of them keeps is kept
by every call.
-/

namespace Membrane
namespace Serving

open Foundation Data Store

structure KeptByCalls [InventoryHash] (holds : FragmentTable -> Prop) : Prop where
  pop : forall t k f t', t.Bookkeeping -> t.pop k = some (f, t') -> holds t -> holds t'
  recency : forall t : FragmentTable, holds t -> holds t.recency
  lookup : forall (t : FragmentTable) thread k now, t.Bookkeeping -> holds t ->
    holds (t.lookup thread k now).2
  touch : forall (t : FragmentTable) k now isPrimary, holds t ->
    holds (t.touch k now isPrimary)
  add : forall (t : FragmentTable) f now, t.Bookkeeping -> ¬ f.key ∈ t.fragments ->
    holds t -> holds (t.add f now)

namespace KeptByCalls

variable {sigma tau pi : Type} [InventoryHash] {holds : FragmentTable -> Prop}
variable {n m : Node sigma tau pi}

theorem inserted (hkept : KeptByCalls holds) (hn : n.Consistent) (h : holds n.table)
    {f : Fragment} (hnew : ¬ f.key ∈ n.fragments) (isPrimary : Bool) (now : ℚ) :
    holds (n.inserted f isPrimary now).table :=
  hkept.touch _ _ _ _ (hkept.add _ _ _ hn.bookkeeping hnew h)

variable [PayloadStore sigma] [LowerTier tau]

theorem keptByRemovals (hkept : KeptByCalls holds) :
    Node.KeptByRemovals (fun n : Node sigma tau pi => n.Invariant ∧ holds n.table) where
  demoted m k h := ⟨Node.invariant_keptByRemovals.demoted m k h.left, h.right⟩
  remove m k f m' hremove h := by
    refine ⟨Node.invariant_keptByRemovals.remove m k f m' hremove h.left, ?_⟩
    rcases Node.removeFragment_eq_ok hremove with ⟨table, hpop, _, hm'⟩
    rw [hm']
    exact hkept.pop _ _ _ _ h.left.bookkeeping hpop h.right
  raised m k raised hremove h := by
    refine ⟨Node.invariant_keptByRemovals.raised m k raised hremove h.left, ?_⟩
    rcases Node.removeFragment_eq_error hremove with ⟨_, hsame⟩ | ⟨f, table, hpop, _, hnode⟩
    · rw [hsame]
      exact h.right
    · rw [hnode]
      exact hkept.pop _ _ _ _ h.left.bookkeeping hpop h.right
  mergeReads m h := ⟨Node.invariant_keptByRemovals.mergeReads m h.left, hkept.recency _ h.right⟩
  callbacks m evicted reason h :=
    ⟨Node.invariant_keptByRemovals.callbacks m evicted reason h.left, h.right⟩

variable [EvictionPolicy pi]

theorem store (hkept : KeptByCalls holds) {f : Fragment} {caller : Caller}
    (hfault : n.Inserts f caller -> Node.payloadFault sigma f = none) (hn : n.Invariant)
    (h : holds n.table) (isPrimary : Bool) (now evictTime : ℚ) :
    holds (n.store f isPrimary caller now evictTime).2.table := by
  have hcharged : holds (n.charged f).table := by
    rw [Node.charged_table]
    exact h
  apply (hkept.keptByRemovals.and (Node.absent_keptByRemovals f.key)).store
    (fun m => holds m.table) hfault h hcharged
  · intro _
    exact hkept.touch _ _ _ _ hcharged
  · intro hk
    refine ⟨⟨Node.charged_invariant hn f, hcharged⟩, ?_⟩
    rw [Node.charged_fragments]
    exact hk
  · intro room hroom
    exact ⟨hroom.left.right, fun _ _ => hkept.inserted hroom.left.left.toConsistent
      hroom.left.right hroom.right isPrimary now⟩

theorem keptBySteps (hkept : KeptByCalls holds) :
    Node.KeptBySteps (fun n : Node sigma tau pi => n.Invariant ∧ holds n.table) where
  toKeptByRemovals := hkept.keptByRemovals
  lookup _ thread k now h :=
    ⟨Node.invariant_keptBySteps.lookup _ thread k now h.left,
      hkept.lookup _ _ _ _ h.left.bookkeeping h.right⟩
  taken _ tier h := ⟨Node.invariant_keptBySteps.taken _ tier h.left, h.right⟩
  filled _ contentStore h := ⟨Node.invariant_keptBySteps.filled _ contentStore h.left, h.right⟩
  store _ _ isPrimary _ now evictTime hfault h :=
    ⟨Node.store_invariant_of hfault h.left,
      hkept.store hfault h.left h.right isPrimary now evictTime⟩

theorem call {sigma : Type} [ContentStore sigma] {n : Node sigma tau pi}
    (hkept : KeptByCalls holds) (hn : n.Invariant) (h : holds n.table) (c : Call) :
    holds (n.call c).table :=
  (hkept.keptBySteps.call ⟨hn, h⟩ c (Node.addresses n c)).right

end KeptByCalls

/-!
# The caches
-/

variable {t : FragmentTable}

section

variable (h : CachedResident t)

include h

theorem CachedResident.congr {t' : FragmentTable} (hcaches : t'.caches = t.caches)
    (hfragments : forall k f, t.fragments.get? k = some f -> t'.fragments.get? k = some f) :
    CachedResident t' := by
  intro thread k entry hentry
  apply hfragments
  apply h thread k entry
  unfold FragmentTable.cached FragmentTable.cacheOf at hentry ⊢
  rw [← hcaches]
  exact hentry

theorem CachedResident.pop [InventoryHash] {t' : FragmentTable} {k : String} {f : Fragment}
    (hpop : t.pop k = some (f, t')) : CachedResident t' := by
  intro thread c entry hentry
  rcases cached_of_pop hpop thread c hentry with ⟨hc, hold⟩
  rw [FragmentTable.pop_fragments hpop, Dict.get?_erase_of_ne _ hc]
  exact h thread c entry hold

theorem CachedResident.recency : CachedResident t.recency := by
  intro thread k entry hentry
  rw [cached_recency] at hentry
  exact h thread k entry hentry

theorem CachedResident.lookup_resident {thread : Thread} {k : String}
    {now : Option ℚ} {entry : CacheEntry} (hentry : (t.lookup thread k now).1 = some entry) :
    t.fragments.get? k = some entry.1 := by
  by_cases hk : k ∈ t.fragments
  · cases hcached : (t.threadCache thread).cached thread k with
    | some hit =>
      rw [FragmentTable.lookup_of_cached now hcached] at hentry
      cases hentry
      rw [FragmentTable.cached_threadCache] at hcached
      exact h thread k _ hcached
    | none =>
      rcases (Dict.mem_iff_exists_get? _ k).mp hk with ⟨f, hf⟩
      rw [FragmentTable.lookup_of_found now hcached hf] at hentry
      cases hentry
      exact hf
  · rw [h.lookup_of_not_mem hk] at hentry
    cases hentry

theorem CachedResident.lookup (thread : Thread) (k : String)
    (now : Option ℚ) : CachedResident (t.lookup thread k now).2 := by
  intro other c entry hentry
  have hfragments : (t.lookup thread k now).2.fragments = t.fragments := by
    rw [t.lookup_cachesOnly thread k now]
  rw [hfragments]
  rcases cached_lookup_cases hentry with hold | ⟨hc, f, hf, hfilled⟩
  · exact h other c entry hold
  · rw [hc, hfilled]
    exact hf

end

theorem cachedResident_keptByCalls [InventoryHash] : KeptByCalls CachedResident where
  pop _ _ _ _ _ hpop h := h.pop hpop
  recency _ h := h.recency
  lookup _ thread k now _ h := h.lookup thread k now
  touch _ _ _ _ h := h.congr rfl (fun _ _ hg => hg)
  add t f now _ hnew h := by
    have hcaches : (t.add f now).caches = t.caches := rfl
    apply h.congr hcaches
    intro k g hg
    show (t.fragments.set f.key f).get? k = some g
    rw [Dict.get?_set, if_neg]
    · exact hg
    · rintro rfl
      exact hnew (Dict.mem_of_get? hg)

namespace Node

variable {sigma tau pi : Type} {n m : Node sigma tau pi}

variable [InventoryHash]

structure ReadsResident (n : Node sigma tau pi) : Prop extends Invariant n where
  cached : CachedResident n.table

theorem ReadsResident.both (hn : n.ReadsResident) : n.Invariant ∧ CachedResident n.table :=
  ⟨hn.toInvariant, hn.cached⟩

theorem create_readsResident (config : Config sigma tau pi) :
    (create config).ReadsResident where
  toInvariant := create_invariant config
  cached _ _ _ h := by cases h

variable [ContentStore sigma]

/-!
# One key
-/

def FoundResident (result : Except NodeError (Option Fragment) × Node sigma tau pi) : Prop :=
  forall f, result.1 = .ok (some f) -> result.2.fragments.get? f.key = some f

theorem readKey_foundResident (hn : n.Consistent) (h : CachedResident n.table)
    (thread : Thread) (k : String) (caller : Caller) (now : ℚ) :
    FoundResident (n.readKey thread k caller now) := by
  intro f hanswer
  unfold readKey at hanswer ⊢
  cases hentry : (n.table.lookup thread k (some now)).1 with
  | none =>
    rw [hentry] at hanswer
    cases hanswer
  | some entry =>
    have hresident : n.fragments.get? k = some entry.1 := h.lookup_resident hentry
    rw [hentry] at hanswer
    unfold answerRead at hanswer ⊢
    simp only at hanswer ⊢
    split_ifs at hanswer ⊢
    · cases hanswer
    · split at hanswer <;> cases hanswer
    · cases hanswer
    · cases hanswer
      have hkey := hn.bookkeeping.keyed k _ hresident
      show (n.table.lookup thread k (some now)).2.fragments.get? _ = _
      rw [n.table.lookup_cachesOnly thread k (some now), hkey]
      exact hresident

variable [LowerTier tau] [EvictionPolicy pi]

theorem readsResident_keptBySteps :
    KeptBySteps (fun n : Node sigma tau pi => n.Invariant ∧ CachedResident n.table) :=
  cachedResident_keptByCalls.keptBySteps

theorem retrieveKey_readsResident (hn : n.ReadsResident) (thread : Thread) (k : String)
    (caller : Caller) (times : ReadTimes) :
    (n.retrieveKey thread k caller times).2.ReadsResident ∧
      FoundResident (n.retrieveKey thread k caller times) := by
  have hfault : forall f, n.Promotes k f -> payloadFault sigma f = none :=
    fun f _ => payloadFault_of_total f
  have hkept := readsResident_keptBySteps.retrieveKey hn.both thread k caller hfault times
  have hpromoted := readsResident_keptBySteps.promote hn.both k hfault times
  refine ⟨⟨hkept.left, hkept.right⟩, ?_⟩
  unfold retrieveKey
  split_ifs
  · split
    · intro f hf
      cases hf
    · rename_i heq
      rw [heq] at hpromoted
      exact readKey_foundResident hpromoted.left.toConsistent hpromoted.right thread k caller
        times.read
  · exact readKey_foundResident hn.toConsistent hn.cached thread k caller times.read

theorem call_readsResident (hn : n.ReadsResident) (c : Call) : (n.call c).ReadsResident :=
  ⟨call_invariant hn.toInvariant c,
    (readsResident_keptBySteps.call hn.both c (addresses n c)).right⟩

end Node

end Serving
end Membrane
