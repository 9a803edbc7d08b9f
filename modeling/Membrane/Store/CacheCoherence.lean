import Membrane.Store.LockHolder
import Membrane.Store.TableInvariant

/-!
# Read caches and removals

A lookup fills its cache without the lock and checks afterwards whether a
removal was counted in between.  A removal takes the fragment from the map,
counts itself and then visits every cache.  Between these steps a cache may hold
an entry that is no longer right.  Such an entry is doomed: the removal has yet
to visit the cache, or the lookup has yet to undo its fill.
-/

namespace Membrane
namespace Store

open Foundation Data

/-!
# What the steps of a lookup do to the caches
-/

variable {entry : CacheEntry} {removals : Nat}

namespace FragmentTable

variable (t : FragmentTable) (thread other : Thread) (k c : String)

theorem cached_setCache (cache : ReadCache) :
    (t.setCache thread cache).cached other c =
      if other = thread then cache.entries.get? c else t.cached other c := by
  unfold cached cacheOf setCache Dict.getD
  rw [Dict.get?_set]
  by_cases h : other = thread
  · rw [if_pos h, if_pos h]
    rfl
  · rw [if_neg h, if_neg h]

theorem cached_setCache_of_ne (cache : ReadCache) (h : other ≠ thread) :
    (t.setCache thread cache).cached other c = t.cached other c := by
  rw [cached_setCache, if_neg h]

theorem cached_of_not_mem (h : ¬ thread ∈ t.caches) : t.cached thread c = none := by
  unfold cached cacheOf Dict.getD
  rw [(t.caches.get?_eq_none_iff thread).mpr h]
  rfl

theorem mem_caches_of_cached (h : t.cached thread c = some entry) : thread ∈ t.caches := by
  by_contra hmem
  rw [t.cached_of_not_mem thread c hmem] at h
  cases h

theorem cached_threadCache : (t.threadCache thread).cached other c = t.cached other c := by
  by_cases hmem : thread ∈ t.caches
  · unfold threadCache
    rw [if_pos hmem]
  · have hopened : t.threadCache thread = t.setCache thread ReadCache.create := by
      unfold threadCache setCache
      rw [if_neg hmem]
    rw [hopened, cached_setCache]
    by_cases h : other = thread
    · rw [if_pos h, h, t.cached_of_not_mem thread c hmem]
      rfl
    · rw [if_neg h]

theorem cached_recordRead (now : Option ℚ) :
    (t.recordRead thread k now).cached other c = t.cached other c := by
  cases now with
  | none => rfl
  | some now =>
    show (t.setCache thread ((t.cacheOf thread).recordAccess k now)).cached other c = _
    rw [cached_setCache]
    by_cases h : other = thread
    · rw [if_pos h, h]
      rfl
    · rw [if_neg h]

theorem cached_of_clearFullCache (h : (t.clearFullCache thread).cached other c = some entry) :
    t.cached other c = some entry := by
  unfold clearFullCache at h
  rw [cached_setCache] at h
  split_ifs at h with hother
  · unfold ReadCache.clearFull at h
    split at h
    · cases h
    · rw [hother]
      exact h
  · exact h

theorem cached_fillCache (entry : CacheEntry) :
    (t.fillCache thread k entry).cached other c =
      if other = thread ∧ c = k then some entry else t.cached other c := by
  unfold fillCache
  rw [cached_setCache, ite_and]
  by_cases hother : other = thread
  · rw [if_pos hother, if_pos hother, hother]
    exact (t.cacheOf thread).entries.get?_set k entry c
  · rw [if_neg hother, if_neg hother]

theorem cached_dropCached :
    (t.dropCached thread k).cached other c =
      if other = thread ∧ c = k then none else t.cached other c := by
  unfold dropCached
  rw [cached_setCache, ite_and]
  by_cases hother : other = thread
  · rw [if_pos hother, if_pos hother, hother]
    exact (t.cacheOf thread).entries.get?_erase k c
  · rw [if_neg hother, if_neg hother]

theorem cached_of_dropCached (h : (t.dropCached thread k).cached other c = some entry) :
    t.cached other c = some entry := by
  rw [cached_dropCached] at h
  split_ifs at h
  exact h

end FragmentTable

/-!
# Entries

When an entry is right may depend on the fragment and on the insertion time the
table holds under its key.  An entry that is right names the resident fragment,
and an insertion time that is written later does not make it wrong.
-/

abbrev EntryRule := Option Fragment -> Option ℚ -> CacheEntry -> Prop

structure EntryRule.Lawful (right : EntryRule) : Prop where
  resident : forall {f time entry}, right f time entry -> f = some entry.1
  timed : forall {f entry}, right f none entry -> forall time, right f (some time) entry

def EntryRule.At (right : EntryRule) (t : FragmentTable) (k : String)
    (entry : CacheEntry) : Prop :=
  right (t.fragments.get? k) (t.insertionTimes.get? k) entry

/-- A removal of the key was counted after the counter was read, or is about to
be counted. -/
def Stale (t : FragmentTable) (w : Writer) (k : String) (removals : Nat) : Prop :=
  removals < t.removals ∨ w.Uncounted k

def Reader.Sound (right : EntryRule) (t : FragmentTable) (w : Writer) : Reader -> Prop
  | .reading _ _ removals => removals ≤ t.removals
  | .timing k _ removals f =>
    removals ≤ t.removals ∧ (t.fragments.get? k = some f ∨ Stale t w k removals)
  | .clearing k _ removals entry =>
    removals ≤ t.removals ∧ (right.At t k entry ∨ Stale t w k removals)
  | .filling k _ removals entry =>
    removals ≤ t.removals ∧ (right.At t k entry ∨ Stale t w k removals)
  | .validating _ _ removals _ => removals ≤ t.removals
  | _ => True

/-- The lookup is going to undo its fill of the key. -/
def Reader.WillUndo (t : FragmentTable) (k : String) : Reader -> Prop
  | .validating c _ removals _ => c = k ∧ t.removals ≠ removals
  | .undoing c _ _ => c = k
  | _ => False

/-- Every cached entry is right or doomed. -/
structure Coherent (right : EntryRule) (s : Threads) : Prop where
  locked : Locked s.table s.writer
  readers : forall thread, (s.reader thread).Sound right s.table s.writer
  cached : forall thread k entry, s.table.cached thread k = some entry ->
    right.At s.table k entry ∨ s.writer.WillDrop thread k ∨
      (s.reader thread).WillUndo s.table k

theorem create_coherent (right : EntryRule) : Coherent right Threads.create where
  locked := Locked.create
  readers _ := trivial
  cached _ _ _ h := by cases h

/-!
# Steps of the lock's holder
-/

structure Carries (right : EntryRule) (t : FragmentTable) (w : Writer)
    (t' : FragmentTable) (w' : Writer) : Prop where
  removals : t.removals ≤ t'.removals
  fragments : forall k f, t.fragments.get? k = some f ->
    t'.fragments.get? k = some f ∨ w'.Uncounted k
  entries : forall k entry, right.At t k entry -> right.At t' k entry ∨ w'.Uncounted k
  counted : forall k, w.Uncounted k -> w'.Uncounted k ∨ t.removals < t'.removals
  cached : forall thread k entry, t'.cached thread k = some entry ->
    t.cached thread k = some entry ∧ (w.WillDrop thread k -> w'.WillDrop thread k)

namespace Carries

variable {right : EntryRule} {t t' : FragmentTable} {w w' : Writer}

section

variable (h : Carries right t w t' w')

include h

theorem stale {k : String} (hremovals : removals ≤ t.removals)
    (hstale : Stale t w k removals) : Stale t' w' k removals := by
  rcases hstale with hless | huncounted
  · exact Or.inl (lt_of_lt_of_le hless h.removals)
  · rcases h.counted k huncounted with hstill | hless
    · exact Or.inr hstill
    · exact Or.inl (lt_of_le_of_lt hremovals hless)

theorem sound {r : Reader} (hr : r.Sound right t w) :
    r.Sound right t' w' := by
  have hentry : forall {k removals entry}, removals ≤ t.removals ->
      right.At t k entry ∨ Stale t w k removals ->
      right.At t' k entry ∨ Stale t' w' k removals := by
    intro k removals entry hremovals hentry
    rcases hentry with hright | hstale
    · exact (h.entries k entry hright).imp_right Or.inr
    · exact Or.inr (h.stale hremovals hstale)
  cases r with
  | reading k now removals | validating k now removals entry => exact le_trans hr h.removals
  | timing k now removals f =>
    refine ⟨le_trans hr.left h.removals, ?_⟩
    rcases hr.right with hresident | hstale
    · exact (h.fragments k f hresident).imp_right Or.inr
    · exact Or.inr (h.stale hr.left hstale)
  | clearing k now removals entry | filling k now removals entry =>
    exact ⟨le_trans hr.left h.removals, hentry hr.left hr.right⟩
  | returned answer | opening k now | probing k now | counting k now | undoing k now entry
  | recording k now entry =>
    trivial

theorem willUndo {r : Reader} (hr : r.Sound right t w)
    {k : String} (hundo : r.WillUndo t k) : r.WillUndo t' k := by
  cases r with
  | validating c now removals entry =>
    have hremovals : removals ≤ t.removals := hr
    have hmore := h.removals
    exact ⟨hundo.left, by have hne := hundo.right; omega⟩
  | undoing c now entry => exact hundo
  | returned answer | opening c now | probing c now | counting c now | reading c now removals
  | timing c now removals f | clearing c now removals entry | filling c now removals entry
  | recording c now entry =>
    exact hundo.elim

end

theorem willDrop_of_uncounted {k : String} (huncounted : w.Uncounted k) (thread : Thread) :
    w.WillDrop thread k := by
  cases w with
  | counting c f => exact huncounted
  | free | adding stage f now isPrimary | dropping c f pending | unbooking stage c f =>
    exact huncounted.elim

theorem coherent {reader : Thread -> Reader} (h : Carries right t w t' w')
    (hlocked : Locked t' w') (hs : Coherent right ⟨t, w, reader⟩) :
    Coherent right ⟨t', w', reader⟩ where
  locked := hlocked
  readers thread := h.sound (hs.readers thread)
  cached thread k entry hentry := by
    rcases h.cached thread k entry hentry with ⟨hbefore, hdrop⟩
    rcases hs.cached thread k entry hbefore with hright | hdropped | hundo
    · rcases h.entries k entry hright with hstill | huncounted
      · exact Or.inl hstill
      · exact Or.inr (Or.inl (willDrop_of_uncounted huncounted thread))
    · exact Or.inr (Or.inl (hdrop hdropped))
    · exact Or.inr (Or.inr (h.willUndo (hs.readers thread) hundo))

theorem of_quiet (hfragments : t'.fragments = t.fragments)
    (htimes : t'.insertionTimes = t.insertionTimes) (hremovals : t'.removals = t.removals)
    (hcaches : t'.caches = t.caches) (huncounted : forall k, w.Uncounted k -> w'.Uncounted k)
    (hdrop : forall thread k, w.WillDrop thread k -> w'.WillDrop thread k) :
    Carries right t w t' w' where
  removals := le_of_eq hremovals.symm
  fragments k f hf := by
    rw [hfragments]
    exact Or.inl hf
  entries k entry hright := by
    unfold EntryRule.At
    rw [hfragments, htimes]
    exact Or.inl hright
  counted k hk := Or.inl (huncounted k hk)
  cached thread k entry hentry := by
    unfold FragmentTable.cached FragmentTable.cacheOf at hentry
    rw [hcaches] at hentry
    exact ⟨hentry, hdrop thread k⟩

variable {f : Fragment}

theorem addFragment (hright : right.Lawful) {now : ℚ} {isPrimary : Bool}
    (hlocked : Locked t (.adding .fragment f now isPrimary)) :
    Carries right t (.adding .fragment f now isPrimary) (t.addFragment f)
      (.adding .memory f now isPrimary) := by
  have hnew : forall k g, t.fragments.get? k = some g ->
      (t.addFragment f).fragments.get? k = t.fragments.get? k := by
    intro k g hg
    apply Dict.get?_set_of_ne
    intro hkey
    rw [hlocked.absent k hkey.symm] at hg
    cases hg
  exact
    { removals := le_refl _
      fragments := fun k g hg => Or.inl ((hnew k g hg).trans hg)
      entries := by
        intro k entry hentry
        left
        unfold EntryRule.At
        rw [hnew k entry.1 (hright.resident hentry)]
        exact hentry
      counted := fun _ hk => hk.elim
      cached := fun _ _ _ hentry => ⟨hentry, fun hdrop => hdrop.elim⟩ }

theorem addInsertionTime (hright : right.Lawful) {now : ℚ} {isPrimary : Bool}
    (hlocked : Locked t (.adding .insertionTime f now isPrimary)) :
    Carries right t (.adding .insertionTime f now isPrimary) (t.addInsertionTime f now)
      (.adding .digest f now isPrimary) where
  removals := le_refl _
  fragments _ _ hg := Or.inl hg
  entries k entry hentry := by
    left
    unfold EntryRule.At at hentry ⊢
    by_cases hkey : k = f.key
    · rw [hlocked.untimed k hkey.symm] at hentry
      have htime : (t.addInsertionTime f now).insertionTimes.get? k = some now := by
        rw [hkey]
        exact Dict.get?_set_self _ _ _
      rw [htime]
      exact hright.timed hentry now
    · have htime : (t.addInsertionTime f now).insertionTimes.get? k =
          t.insertionTimes.get? k := Dict.get?_set_of_ne _ _ hkey
      rw [htime]
      exact hentry
  counted _ hk := hk.elim
  cached _ _ _ hentry := ⟨hentry, fun hdrop => hdrop.elim⟩

theorem popInsertionTime (hright : right.Lawful) {k : String}
    (hlocked : Locked t (.unbooking .insertionTime k f)) :
    Carries right t (.unbooking .insertionTime k f) (t.popInsertionTime k)
      (.unbooking .tenantKey k f) where
  removals := le_refl _
  fragments _ _ hg := Or.inl hg
  entries c entry hentry := by
    left
    have hkey : c ≠ k := by
      intro hc
      have hresident := hright.resident hentry
      rw [hlocked.removed c hc.symm] at hresident
      cases hresident
    have htime : (t.popInsertionTime k).insertionTimes.get? c = t.insertionTimes.get? c :=
      Dict.get?_erase_of_ne _ hkey
    unfold EntryRule.At
    rw [htime]
    exact hentry
  counted _ hc := hc.elim
  cached _ _ _ hentry := ⟨hentry, fun hdrop => hdrop.elim⟩

theorem countRemoval {k : String} :
    Carries right t (.counting k f) t.countRemoval (.dropping k f t.caches.keys) where
  removals := Nat.le_succ _
  fragments _ _ hg := Or.inl hg
  entries _ _ hentry := Or.inl hentry
  counted _ _ := Or.inr (Nat.lt_succ_self _)
  cached thread c entry hentry := by
    have hbefore : t.cached thread c = some entry := hentry
    exact ⟨hbefore, fun hdrop => ⟨hdrop, t.mem_caches_of_cached thread c hbefore⟩⟩

theorem dropNext {k : String} {pending : List Thread} (thread : Thread) :
    Carries right t (.dropping k f pending)
      (Writer.dropNext t thread k f pending).2 (Writer.dropNext t thread k f pending).1 := by
  unfold Writer.dropNext
  split_ifs with hmem hempty
  · exact
      { removals := le_refl _
        fragments := fun _ _ hg => Or.inl hg
        entries := fun _ _ hentry => Or.inl hentry
        counted := fun _ hk => hk.elim
        cached := by
          intro other c entry hentry
          refine ⟨t.cached_of_dropCached thread other k c hentry, fun hdrop => ?_⟩
          refine ⟨hdrop.left, List.mem_filter.mpr ⟨hdrop.right, ?_⟩⟩
          rw [decide_eq_true_eq]
          intro hother
          rw [t.cached_dropCached thread other k c, if_pos ⟨hother, hdrop.left.symm⟩] at hentry
          cases hentry }
  · refine of_quiet rfl rfl rfl rfl (fun _ hk => hk.elim) (fun other c hdrop => ?_)
    rw [hempty] at hdrop
    exact absurd hdrop.right (List.not_mem_nil)
  · exact of_quiet rfl rfl rfl rfl (fun _ hk => hk) (fun _ _ hdrop => hdrop)

theorem popFragment (k : String) (f : Fragment) :
    Carries right t .free (t.popFragment k) (.counting k f) := by
  have hother : forall c, c ≠ k ->
      (t.popFragment k).fragments.get? c = t.fragments.get? c :=
    fun c hkey => Dict.get?_erase_of_ne _ hkey
  exact
    { removals := le_refl _
      fragments := by
        intro c g hg
        by_cases hkey : c = k
        · exact Or.inr hkey.symm
        · exact Or.inl ((hother c hkey).trans hg)
      entries := by
        intro c entry hentry
        by_cases hkey : c = k
        · exact Or.inr hkey.symm
        · left
          unfold EntryRule.At
          rw [hother c hkey]
          exact hentry
      counted := fun _ hc => hc.elim
      cached := fun _ _ _ hentry => ⟨hentry, fun hdrop => hdrop.elim⟩ }

theorem advance [InventoryHash] (hright : right.Lawful) (hlocked : Locked t w)
    (thread : Thread) :
    Carries right t w (w.advance t thread).2 (w.advance t thread).1 := by
  have hkept : forall {p : String -> Prop} k, p k -> p k := fun _ hk => hk
  have hkept' : forall {p : Thread -> String -> Prop} thread k, p thread k -> p thread k :=
    fun _ _ hk => hk
  cases w with
  | free => exact of_quiet rfl rfl rfl rfl hkept hkept'
  | adding stage f now isPrimary =>
    cases stage with
    | fragment => exact addFragment hright hlocked
    | insertionTime => exact addInsertionTime hright hlocked
    | memory | digest | tenantKey | payloadRef | touch =>
      exact of_quiet rfl rfl rfl rfl hkept hkept'
  | counting k f => exact countRemoval
  | dropping k f pending => exact dropNext thread
  | unbooking stage k f =>
    cases stage with
    | insertionTime => exact popInsertionTime hright hlocked
    | digest | memory | primary | accessTime | tenantKey | payloadRef =>
      exact of_quiet rfl rfl rfl rfl hkept hkept'

end Carries

/-!
# Steps of a lookup
-/

theorem Reader.advance_cachesOnly (t : FragmentTable) (lockFree : Bool) (thread : Thread)
    (r : Reader) : FragmentTable.CachesOnly t (r.advance t lockFree thread).2 := by
  cases r with
  | opening k now =>
    unfold advance
    split_ifs
    · rfl
    · rfl
  | probing k now | reading k now removals =>
    unfold advance
    simp only
    split
    · rfl
    · rfl
  | validating k now removals entry =>
    unfold advance
    simp only
    split_ifs
    · rfl
    · rfl
  | returned answer | counting k now | timing k now removals f | clearing k now removals entry
  | filling k now removals entry | undoing k now entry | recording k now entry =>
    rfl

/-- The entry a lookup builds from a resident fragment is right, unless a removal
makes it undo its fill. -/
def Reader.TimesRight (right : EntryRule) (t : FragmentTable) (w : Writer) :
    Reader -> Prop
  | .timing k _ removals f =>
    t.fragments.get? k = some f -> ¬ Stale t w k removals ->
      right.At t k (t.entryFor k f)
  | _ => True

theorem Reader.timesRight_of_timing {right : EntryRule} {t : FragmentTable} {w : Writer}
    {r : Reader}
    (h : forall k now removals f, r = .timing k now removals f ->
      t.fragments.get? k = some f -> ¬ Stale t w k removals ->
      right.At t k (t.entryFor k f)) : r.TimesRight right t w := by
  cases r with
  | timing k now removals f => exact h k now removals f rfl
  | returned answer | opening k now | probing k now | counting k now | reading k now removals
  | clearing k now removals entry | filling k now removals entry
  | validating k now removals entry | undoing k now entry | recording k now entry =>
    trivial

/-- What a step of a lookup has to keep: its own phase is sound, and its thread's
cache holds entries that are right or doomed. -/
structure Reads (right : EntryRule) (t : FragmentTable) (w : Writer) (thread : Thread)
    (t' : FragmentTable) (r' : Reader) : Prop where
  sound : r'.Sound right t w
  others : forall other k, other ≠ thread -> t'.cached other k = t.cached other k
  own : forall k entry, t'.cached thread k = some entry ->
    right.At t k entry ∨ w.WillDrop thread k ∨ r'.WillUndo t k

theorem Reads.coherent {right : EntryRule} {s : Threads} {thread : Thread}
    {t' : FragmentTable} {r' : Reader} (h : Reads right s.table s.writer thread t' r')
    (hcaches : FragmentTable.CachesOnly s.table t') (hs : Coherent right s) :
    Coherent right
      { s with table := t', reader := Function.update s.reader thread r' } := by
  rw [hcaches]
  refine ⟨?_, ?_, ?_⟩
  · exact ⟨hs.locked.removed, hs.locked.absent, hs.locked.untimed, hs.locked.inserted,
      hs.locked.timed, hs.locked.resident⟩
  · intro other
    by_cases hother : other = thread
    · subst hother
      show (Function.update s.reader other r' other).Sound right s.table s.writer
      rw [Function.update_self]
      exact h.sound
    · show (Function.update s.reader thread r' other).Sound right s.table s.writer
      rw [Function.update_of_ne hother]
      exact hs.readers other
  · intro other k entry hentry
    have hentry' : t'.cached other k = some entry := hentry
    by_cases hother : other = thread
    · subst hother
      show right.At s.table k entry ∨ s.writer.WillDrop other k ∨
        (Function.update s.reader other r' other).WillUndo s.table k
      rw [Function.update_self]
      exact h.own k entry hentry'
    · show right.At s.table k entry ∨ s.writer.WillDrop other k ∨
        (Function.update s.reader thread r' other).WillUndo s.table k
      rw [Function.update_of_ne hother]
      rw [h.others other k hother] at hentry'
      exact hs.cached other k entry hentry'

namespace Reads

variable {right : EntryRule} {t t' : FragmentTable} {w : Writer} {thread : Thread}
variable {r r' : Reader}

theorem of_kept
    (hown : forall k entry, t.cached thread k = some entry ->
      right.At t k entry ∨ w.WillDrop thread k ∨ r.WillUndo t k)
    (hsound : r'.Sound right t w)
    (hothers : forall other k, other ≠ thread -> t'.cached other k = t.cached other k)
    (hkept : forall k entry, t'.cached thread k = some entry ->
      t.cached thread k = some entry ∧ (r.WillUndo t k -> r'.WillUndo t k)) :
    Reads right t w thread t' r' where
  sound := hsound
  others := hothers
  own k entry hentry := by
    obtain ⟨hbefore, hundo⟩ := hkept k entry hentry
    rcases hown k entry hbefore with hright | hdrop | hold
    · exact Or.inl hright
    · exact Or.inr (Or.inl hdrop)
    · exact Or.inr (Or.inr (hundo hold))

variable {now : Option ℚ}

theorem fill {k : String}
    (hown : forall c e, t.cached thread c = some e ->
      right.At t c e ∨ w.WillDrop thread c ∨
        (Reader.filling k now removals entry).WillUndo t c)
    (hsound : (Reader.filling k now removals entry).Sound right t w) :
    Reads right t w thread (t.fillCache thread k entry) (.validating k now removals entry) where
  sound := hsound.left
  others other c hother := t.cached_setCache_of_ne thread other c _ hother
  own c e he := by
    rw [t.cached_fillCache thread thread k c entry] at he
    split_ifs at he with hkey
    · cases he
      rw [hkey.right]
      rcases hsound.right with hright | hless | huncounted
      · exact Or.inl hright
      · exact Or.inr (Or.inr ⟨rfl, Nat.ne_of_gt hless⟩)
      · exact Or.inr (Or.inl (Carries.willDrop_of_uncounted huncounted thread))
    · rcases hown c e he with hright | hdrop | hfalse
      · exact Or.inl hright
      · exact Or.inr (Or.inl hdrop)
      · exact hfalse.elim

theorem advance (lockFree : Bool)
    (hown : forall k entry, t.cached thread k = some entry ->
      right.At t k entry ∨ w.WillDrop thread k ∨ r.WillUndo t k)
    (hsound : r.Sound right t w) (htimes : r.TimesRight right t w) :
    Reads right t w thread (r.advance t lockFree thread).2
      (r.advance t lockFree thread).1 := by
  have hsame : forall other k, other ≠ thread -> t.cached other k = t.cached other k :=
    fun _ _ _ => rfl
  cases r with
  | returned answer => exact of_kept hown hsound hsame (fun _ _ h => ⟨h, id⟩)
  | opening k now =>
    unfold Reader.advance
    simp only
    split_ifs
    · refine of_kept hown trivial ?_ ?_
      · intro other c _
        exact t.cached_threadCache thread other c
      · intro c entry h
        rw [t.cached_threadCache thread thread c] at h
        exact ⟨h, id⟩
    · exact of_kept hown hsound hsame (fun _ _ h => ⟨h, id⟩)
  | probing k now =>
    unfold Reader.advance
    simp only
    split
    · exact of_kept hown trivial hsame (fun _ _ h => ⟨h, id⟩)
    · exact of_kept hown trivial hsame (fun _ _ h => ⟨h, id⟩)
  | counting k now => exact of_kept hown (le_refl _) hsame (fun _ _ h => ⟨h, id⟩)
  | reading k now removals =>
    unfold Reader.advance
    simp only
    split
    · exact of_kept hown trivial hsame (fun _ _ h => ⟨h, id⟩)
    · rename_i f hfragment
      exact of_kept hown ⟨hsound, Or.inl hfragment⟩ hsame (fun _ _ h => ⟨h, id⟩)
  | timing k now removals f =>
    refine of_kept hown ⟨hsound.left, ?_⟩ hsame (fun _ _ h => ⟨h, id⟩)
    by_cases hstale : Stale t w k removals
    · exact Or.inr hstale
    · rcases hsound.right with hresident | hno
      · exact Or.inl (htimes hresident hstale)
      · exact absurd hno hstale
  | clearing k now removals entry =>
    refine of_kept hown hsound ?_ ?_
    · intro other c hother
      exact t.cached_setCache_of_ne thread other c _ hother
    · intro c e h
      exact ⟨t.cached_of_clearFullCache thread thread c h, id⟩
  | filling k now removals entry => exact fill hown hsound
  | validating k now removals entry =>
    unfold Reader.advance
    simp only
    split_ifs with hcounter
    · exact of_kept hown trivial hsame (fun _ _ h => ⟨h, And.left⟩)
    · -- a fill whose counter has not changed needs no undoing
      exact of_kept hown trivial hsame (fun _ _ h => ⟨h, fun hundo => hcounter hundo.right⟩)
  | undoing k now entry =>
    refine of_kept hown trivial ?_ ?_
    · intro other c hother
      exact t.cached_setCache_of_ne thread other c _ hother
    · intro c e h
      rw [Reader.advance, t.cached_dropCached thread thread k c] at h
      split_ifs at h with hkey
      exact ⟨h, fun hundo => hkey ⟨rfl, hundo.symm⟩⟩
  | recording k now entry =>
    refine of_kept hown trivial ?_ ?_
    · intro other c _
      exact t.cached_recordRead thread other k c now
    · intro c e h
      rw [← t.cached_recordRead thread thread k c now]
      exact ⟨h, id⟩

end Reads

namespace Threads

variable {right : EntryRule} {s : Threads}

/-!
# Settled states
-/

def Settled (s : Threads) : Prop :=
  (forall thread, exists answer, s.reader thread = .returned answer) ∧
    forall k, ¬ s.writer.Removes k

def CachesResident (s : Threads) : Prop :=
  forall thread k entry, s.table.cached thread k = some entry ->
    s.table.fragments.get? k = some entry.1

theorem Coherent.at_of_settled (hs : Coherent right s) (hsettled : s.Settled) {thread : Thread}
    {k : String} (hentry : s.table.cached thread k = some entry) : right.At s.table k entry := by
  rcases hs.cached thread k entry hentry with hright | hdrop | hundo
  · exact hright
  · have hremoves : s.writer.Removes k := by
      cases hw : s.writer with
      | counting c f =>
        rw [hw] at hdrop
        exact hdrop
      | dropping c f pending =>
        rw [hw] at hdrop
        exact hdrop.left
      | free | adding stage f now isPrimary | unbooking stage c f =>
        rw [hw] at hdrop
        exact hdrop.elim
    exact absurd hremoves (hsettled.right k)
  · rcases hsettled.left thread with ⟨answer, hreturned⟩
    rw [hreturned] at hundo
    exact hundo.elim

/-!
# Runs
-/

def FillsRight (right : EntryRule) (s : Threads) : Event -> Prop
  | .read thread => (s.reader thread).TimesRight right s.table s.writer
  | _ => True

theorem writer_eq_free (h : s.lockFree = true) : s.writer = .free := by
  unfold lockFree at h
  split at h
  · assumption
  · cases h

theorem beginLookup_coherent (hs : Coherent right s) (thread : Thread) (k : String)
    (now : Option ℚ) : Coherent right (s.beginLookup thread k now) := by
  unfold beginLookup
  split
  · rename_i answer hreader
    have hown := hs.cached thread
    rw [hreader] at hown
    have hreads : Reads right s.table s.writer thread s.table (.opening k now) :=
      Reads.of_kept hown trivial (fun _ _ _ => rfl) (fun _ _ h => ⟨h, id⟩)
    exact hreads.coherent rfl hs
  · exact hs

theorem beginStore_coherent (hs : Coherent right s) (f : Fragment) (now : ℚ)
    (isPrimary : Bool) : Coherent right (s.beginStore f now isPrimary) := by
  rcases s with ⟨t, w, reader⟩
  unfold beginStore
  split_ifs with hfree hresident
  · cases writer_eq_free hfree
    have hcarries : Carries right t .free t (.adding .touch f now isPrimary) :=
      Carries.of_quiet rfl rfl rfl rfl (fun _ h => h) (fun _ _ h => h)
    exact hcarries.coherent (hs.locked.of_quiet rfl rfl (fun _ h => h) (fun _ => Iff.rfl)
      (fun _ => Iff.rfl) (fun _ h => h)) hs
  · cases writer_eq_free hfree
    have hcarries : Carries right t .free t (.adding .fragment f now isPrimary) :=
      Carries.of_quiet rfl rfl rfl rfl (fun _ h => h) (fun _ _ h => h)
    exact hcarries.coherent (hs.locked.beginAdd hresident now isPrimary) hs
  · exact hs

theorem beginRemove_coherent (hs : Coherent right s) (k : String) :
    Coherent right (s.beginRemove k) := by
  rcases s with ⟨t, w, reader⟩
  unfold beginRemove
  split
  · rename_i f hfree _
    cases writer_eq_free hfree
    exact (Carries.popFragment k f).coherent (hs.locked.popFragment k f) hs
  · exact hs

variable [InventoryHash]

/-- Every step keeps the caches coherent, as long as lookups build right entries. -/
theorem step_coherent (hright : right.Lawful) (hs : Coherent right s) (event : Event)
    (hfills : s.FillsRight right event) : Coherent right (s.step event) := by
  cases event with
  | lookup thread k now => exact beginLookup_coherent hs thread k now
  | read thread =>
    have hreads := Reads.advance s.lockFree (hs.cached thread) (hs.readers thread) hfills
    exact hreads.coherent
      (Reader.advance_cachesOnly s.table s.lockFree thread (s.reader thread)) hs
  | store f now isPrimary => exact beginStore_coherent hs f now isPrimary
  | remove k => exact beginRemove_coherent hs k
  | write thread =>
    rcases s with ⟨t, w, reader⟩
    exact (Carries.advance hright hs.locked thread).coherent (hs.locked.advance thread) hs

theorem run_coherent (hright : right.Lawful) {events : List Event}
    (hfills : Along step (FillsRight right) create events) :
    Throughout step (Coherent right) create events :=
  throughout_of_along (Coherent right)
    (fun _ event hs hfill => step_coherent hright hs event hfill) (create_coherent right)
    hfills

def namesResident : EntryRule := fun f _ entry => f = some entry.1

/-- Whatever the threads do, no cache serves a removed fragment once the lookups
and removals under way are done. -/
theorem run_cachesResident (events : List Event) :
    Throughout step (fun s => s.Settled -> s.CachesResident) create events := by
  have hlawful : namesResident.Lawful := ⟨fun h => h, fun h _ => h⟩
  have hfills : forall (s : Threads) event, s.FillsRight namesResident event := by
    intro s event
    cases event with
    | read thread =>
      exact Reader.timesRight_of_timing (fun _ _ _ _ _ hresident _ => hresident)
    | lookup thread k now | store f now isPrimary | remove k | write thread => trivial
  have hrun := run_coherent hlawful (along_of_forall hfills create events)
  intro completed hleading hsettled thread k entry hentry
  exact Coherent.at_of_settled (hrun completed hleading) hsettled hentry

end Threads

end Store
end Membrane
