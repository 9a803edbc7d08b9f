import Membrane.Store.Recency

/-!
# What a recorded read changes

A lookup that finds its key records the time of the read in the buffer of its thread,
where it replaces the read of that key that was buffered before.  The last access to the
key then changes unless it is decided by another access.
-/

namespace Membrane
namespace Store

open Foundation Data

theorem mergeLast_right_comm (fragments : Dict String Fragment) (k : String)
    (last : Option ℚ) (a b : String × ℚ) :
    mergeLast fragments k (mergeLast fragments k last a) b =
      mergeLast fragments k (mergeLast fragments k last b) a := by
  unfold mergeLast
  by_cases ha : a.1 = k ∧ k ∈ fragments ∧ last.getD 0 < a.2
  · by_cases hb : b.1 = k ∧ k ∈ fragments ∧ last.getD 0 < b.2
    · rw [if_pos ha, if_pos hb]
      rcases lt_trichotomy a.2 b.2 with hlt | heq | hlt
      · rw [if_pos ⟨hb.left, hb.right.left, hlt⟩,
          if_neg (fun h => not_lt.mpr hlt.le h.right.right)]
      · rw [if_neg (fun h => absurd h.right.right (by simp [heq])),
          if_neg (fun h => absurd h.right.right (by simp [heq])), heq]
      · rw [if_neg (fun h => not_lt.mpr hlt.le h.right.right),
          if_pos ⟨ha.left, ha.right.left, hlt⟩]
    · rw [if_neg hb, if_pos ha, if_neg]
      intro h
      exact hb ⟨h.left, h.right.left, lt_trans ha.right.right h.right.right⟩
  · by_cases hb : b.1 = k ∧ k ∈ fragments ∧ last.getD 0 < b.2
    · rw [if_neg ha, if_pos hb, if_neg]
      intro h
      exact ha ⟨h.left, h.right.left, lt_trans hb.right.right h.right.right⟩
    · rw [if_neg ha, if_neg hb, if_neg ha]

instance (fragments : Dict String Fragment) (k : String) :
    RightCommutative (mergeLast fragments k) :=
  ⟨mergeLast_right_comm fragments k⟩

def mergeRead (fragments : Dict String Fragment) (k : String) (last own : Option ℚ) :
    Option ℚ :=
  match own with
  | none => last
  | some time => mergeLast fragments k last (k, time)

variable {fragments : Dict String Fragment} {k : String}

theorem foldl_mergeLast_of_ne {accesses : List (String × ℚ)}
    (h : forall access, access ∈ accesses -> access.1 ≠ k) (last : Option ℚ) :
    accesses.foldl (mergeLast fragments k) last = last := by
  induction accesses with
  | nil => rfl
  | cons access rest ih =>
    have hskip : mergeLast fragments k last access = last :=
      if_neg (fun hmerge => h access List.mem_cons_self hmerge.left)
    rw [List.foldl_cons, hskip]
    exact ih (fun other hother => h other (List.mem_cons_of_mem access hother))

theorem foldl_mergeLast_entries (fragments : Dict String Fragment) (k : String)
    (accesses : Dict String ℚ) (last : Option ℚ) :
    accesses.entries.foldl (mergeLast fragments k) last =
      mergeRead fragments k last (accesses.get? k) := by
  cases hown : accesses.get? k with
  | none =>
    apply foldl_mergeLast_of_ne
    rintro ⟨j, time⟩ haccess hj
    have hmem : accesses.get? j = some time := (accesses.get?_eq_some_iff j time).mpr haccess
    rw [show j = k from hj, hown] at hmem
    cases hmem
  | some time =>
    rw [(Dict.entries_perm_of_get? hown).foldl_eq, List.foldl_cons]
    apply foldl_mergeLast_of_ne
    rintro ⟨j, other⟩ haccess hj
    have hmem : (accesses.erase k).get? j = some other :=
      ((accesses.erase k).get?_eq_some_iff j other).mpr haccess
    rw [show j = k from hj, Dict.get?_erase_self] at hmem
    cases hmem

namespace FragmentTable

def ownRead (t : FragmentTable) (thread : Thread) (k : String) : Option ℚ :=
  (t.cacheOf thread).accesses.get? k

def otherAccess (t : FragmentTable) (thread : Thread) (k : String) : Option ℚ :=
  ({ t with caches := t.caches.erase thread } : FragmentTable).lastAccess k

theorem lastAccess_of_perm {t : FragmentTable} {caches : Dict Thread ReadCache}
    (h : caches.values.Perm t.caches.values) (k : String) :
    ({ t with caches := caches } : FragmentTable).lastAccess k = t.lastAccess k := by
  have hflat := (h.map (fun cache => cache.accesses.entries)).flatten
  rw [lastAccess_eq, lastAccess_eq]
  exact List.Perm.foldl_eq (f := mergeLast t.fragments k) hflat _

theorem lastAccess_split (t : FragmentTable) (thread : Thread) (k : String) :
    t.lastAccess k =
      mergeRead t.fragments k (t.otherAccess thread k) (t.ownRead thread k) := by
  unfold ownRead cacheOf Dict.getD otherAccess
  cases hcache : t.caches.get? thread with
  | none =>
    rw [t.caches.erase_of_not_mem ((t.caches.get?_eq_none_iff thread).mp hcache)]
    rfl
  | some cache =>
    have hflat : t.buffered.flatten.Perm
        (((t.caches.erase thread).values.map (fun cache => cache.accesses.entries)).flatten ++
          cache.accesses.entries) := by
      have hcons := ((Dict.values_perm_of_get? hcache).map
        (fun cache => cache.accesses.entries)).flatten
      exact hcons.trans List.perm_append_comm
    rw [lastAccess_eq, lastAccess_eq, hflat.foldl_eq, List.foldl_append,
      foldl_mergeLast_entries]
    rfl

/-!
# Tables that differ in the buffer of one thread
-/

theorem erase_set_values_perm (d : Dict Thread ReadCache) (thread : Thread) (cache : ReadCache) :
    ((d.set thread cache).erase thread).values.Perm (d.erase thread).values := by
  have hself : (d.set thread cache).get? thread = some cache := d.get?_set_self thread cache
  exact (List.perm_cons cache).mp
    ((Dict.values_perm_of_get? hself).symm.trans (d.values_set_perm thread cache))

/-- The tables differ in the cache of one thread only, which has buffered the given
reads. -/
structure Buffers (t t' : FragmentTable) (thread : Thread) (accesses : Dict String ℚ) :
    Prop where
  only : CachesOnly t t'
  own : (t'.cacheOf thread).accesses = accesses
  others : (t'.caches.erase thread).values.Perm (t.caches.erase thread).values

variable {t t' : FragmentTable} {thread : Thread} {accesses : Dict String ℚ}

theorem Buffers.refl (t : FragmentTable) (thread : Thread) :
    Buffers t t thread (t.cacheOf thread).accesses :=
  ⟨rfl, rfl, List.Perm.refl _⟩

theorem cacheOf_setCache (t : FragmentTable) (thread : Thread) (cache : ReadCache) :
    (t.setCache thread cache).cacheOf thread = cache := by
  unfold cacheOf setCache Dict.getD
  rw [Dict.get?_set_self]
  rfl

section

variable (h : Buffers t t' thread accesses)

include h

theorem Buffers.setCache (cache : ReadCache) :
    Buffers t (t'.setCache thread cache) thread cache.accesses where
  only := h.only.trans rfl
  own := by rw [cacheOf_setCache]
  others := (erase_set_values_perm t'.caches thread cache).trans h.others

theorem Buffers.recordRead (k : String) (now : ℚ) :
    Buffers t (t'.recordRead thread k (some now)) thread (accesses.set k now) := by
  have hread := h.setCache ((t'.cacheOf thread).recordAccess k now)
  have hown : ((t'.cacheOf thread).recordAccess k now).accesses = accesses.set k now := by
    unfold ReadCache.recordAccess
    rw [h.own]
  rw [hown] at hread
  exact hread

theorem Buffers.clearFullCache :
    Buffers t (t'.clearFullCache thread) thread accesses := by
  have hclear := h.setCache (t'.cacheOf thread).clearFull
  have hown : (t'.cacheOf thread).clearFull.accesses = accesses := by
    rw [← h.own]
    unfold ReadCache.clearFull
    split_ifs <;> rfl
  rw [hown] at hclear
  exact hclear

theorem Buffers.fillCache (k : String)
    (entry : CacheEntry) : Buffers t (t'.fillCache thread k entry) thread accesses := by
  have hfill := h.setCache ((t'.cacheOf thread).fill k entry)
  rw [show ((t'.cacheOf thread).fill k entry).accesses = accesses from h.own] at hfill
  exact hfill

theorem Buffers.threadCache :
    Buffers t (t'.threadCache thread) thread accesses := by
  by_cases hmem : thread ∈ t'.caches
  · have hsame : t'.threadCache thread = t' := by
      unfold FragmentTable.threadCache
      rw [if_pos hmem]
    rw [hsame]
    exact h
  · have hopened : t'.threadCache thread = t'.setCache thread ReadCache.create := by
      unfold FragmentTable.threadCache FragmentTable.setCache
      rw [if_neg hmem]
    have hown : accesses = ReadCache.create.accesses := by
      rw [← h.own]
      unfold cacheOf Dict.getD
      rw [(t'.caches.get?_eq_none_iff thread).mpr hmem]
      rfl
    rw [hopened, hown]
    exact h.setCache ReadCache.create

theorem Buffers.lastAccess (k : String) :
    t'.lastAccess k =
      mergeRead t.fragments k (t.otherAccess thread k) (accesses.get? k) := by
  have hfragments : t'.fragments = t.fragments := by rw [h.only]
  have hother : t'.otherAccess thread k = t.otherAccess thread k := by
    unfold otherAccess
    have hsame : ({ t' with caches := t'.caches.erase thread } : FragmentTable) =
        { ({ t with caches := t.caches.erase thread } : FragmentTable) with
          caches := t'.caches.erase thread } := by
      rw [h.only]
    rw [hsame]
    exact lastAccess_of_perm h.others k
  rw [lastAccess_split t' thread k, hfragments, hother]
  unfold ownRead
  rw [h.own]

end

/-!
# Lookups
-/

/-- Only a read with a time that finds the fragment buffers something. -/
theorem lookup_buffers (t : FragmentTable) (thread : Thread) (k : String) (now : Option ℚ) :
    Buffers t (t.lookup thread k now).2 thread
      (match (t.lookup thread k now).1, now with
        | some _, some now => (t.cacheOf thread).accesses.set k now
        | _, _ => (t.cacheOf thread).accesses) := by
  have hopened := (Buffers.refl t thread).threadCache
  cases hcached : (t.threadCache thread).cached thread k with
  | some hit =>
    rw [lookup_of_cached now hcached]
    cases now with
    | none => exact hopened
    | some now => exact hopened.recordRead k now
  | none =>
    cases hf : t.fragments.get? k with
    | none =>
      rw [lookup_of_absent now hcached hf]
      exact hopened
    | some f =>
      rw [lookup_of_found now hcached hf]
      have hfilled := hopened.clearFullCache.fillCache k
      cases now with
      | none => exact hfilled _
      | some now => exact (hfilled _).recordRead k now

/-!
# Reads that change no last access
-/

/-- The read is the one that the thread has buffered already, or another access to the key
is not earlier than it and than the one the thread has buffered. -/
def Recorded (t : FragmentTable) (thread : Thread) (k : String) (now : ℚ) : Prop :=
  t.ownRead thread k = some now ∨ exists other, t.otherAccess thread k = some other ∧
    now ≤ other ∧ forall own, t.ownRead thread k = some own -> own ≤ other

theorem lastAccess_lookup_of_none {now : Option ℚ} (h : (t.lookup thread k now).1 = none)
    (j : String) : (t.lookup thread k now).2.lastAccess j = t.lastAccess j := by
  rw [(lookup_buffers t thread k now).lastAccess, h, lastAccess_split t thread j]
  rfl

theorem mergeRead_some (hk : k ∈ fragments) (last own : ℚ) :
    mergeRead fragments k (some last) (some own) = some (max last own) := by
  show (if k = k ∧ k ∈ fragments ∧ last < own then some own else some last) = _
  by_cases hlater : last < own
  · rw [if_pos ⟨rfl, hk, hlater⟩, max_eq_right hlater.le]
  · rw [if_neg (fun h => hlater h.right.right), max_eq_left (not_lt.mp hlater)]

theorem max_eq_max_iff {last read own : ℚ} :
    max last read = max last own <-> own = read ∨ read ≤ last ∧ own ≤ last := by
  constructor
  · intro h
    by_cases hread : read ≤ last
    · rw [max_eq_left hread] at h
      exact Or.inr ⟨hread, max_eq_left_iff.mp h.symm⟩
    · have hlater : last < read := not_le.mp hread
      rw [max_eq_right hlater.le] at h
      rcases max_choice last own with hlast | hown
      · rw [hlast] at h
        exact absurd h hlater.ne'
      · rw [hown] at h
        exact Or.inl h.symm
  · rintro (hsame | ⟨hread, hown⟩)
    · rw [hsame]
    · rw [max_eq_left hread, max_eq_left hown]

theorem lastAccess_lookup_iff {now other : ℚ} {entry : CacheEntry}
    (h : (t.lookup thread k (some now)).1 = some entry) (hk : k ∈ t.fragments)
    (hother : t.otherAccess thread k = some other) :
    (forall j, (t.lookup thread k (some now)).2.lastAccess j = t.lastAccess j) <->
      t.Recorded thread k now := by
  have hbuffers := lookup_buffers t thread k (some now)
  rw [h] at hbuffers
  have hself : (t.lookup thread k (some now)).2.lastAccess k = t.lastAccess k <->
      t.Recorded thread k now := by
    rw [hbuffers.lastAccess, lastAccess_split t thread k, Dict.get?_set_self, hother,
      mergeRead_some hk]
    unfold Recorded
    cases hown : t.ownRead thread k with
    | none =>
      simp only [mergeRead, Option.some.injEq, max_eq_left_iff, hother]
      simp
    | some own =>
      rw [mergeRead_some hk, Option.some.injEq, max_eq_max_iff]
      simp [hother]
  constructor
  · intro hsame
    exact hself.mp (hsame k)
  · intro hrecorded j
    by_cases hj : j = k
    · rw [hj]
      exact hself.mpr hrecorded
    · rw [hbuffers.lastAccess, lastAccess_split t thread j, Dict.get?_set_of_ne _ _ hj]
      rfl

end FragmentTable

end Store
end Membrane
