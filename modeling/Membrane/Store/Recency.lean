import Membrane.Store.TableInvariant

/-!
# Access times after a merge

The time of the last access to a key is merged from the reads that every thread has
buffered.  It depends on nothing but the recorded time of that key, on whether the
key is resident and on the buffered reads.
-/

namespace Membrane
namespace Store

open Foundation Data

/-- The last access to a key after one buffered read was merged. -/
def mergeLast (fragments : Dict String Fragment) (k : String) (last : Option ℚ)
    (access : String × ℚ) : Option ℚ :=
  if access.1 = k ∧ k ∈ fragments ∧ last.getD 0 < access.2 then some access.2 else last

namespace FragmentTable

def buffered (t : FragmentTable) : List (List (String × ℚ)) :=
  t.caches.values.map (fun cache => cache.accesses.entries)

def lastAccess (t : FragmentTable) (k : String) : Option ℚ :=
  t.recency.accessTimes.get? k

theorem get?_mergeAccess (fragments : Dict String Fragment) (times : Dict String ℚ)
    (access : String × ℚ) (k : String) :
    (mergeAccess fragments times access).get? k =
      mergeLast fragments k (times.get? k) access := by
  by_cases hk : access.1 = k
  · subst hk
    unfold mergeAccess mergeLast
    by_cases hmerge : access.1 ∈ fragments ∧ times.getD access.1 0 < access.2
    · rw [if_pos hmerge, if_pos ⟨rfl, hmerge⟩, Dict.get?_set, if_pos rfl]
    · rw [if_neg hmerge, if_neg (fun h => hmerge h.right)]
  · have hkept : mergeLast fragments k (times.get? k) access = times.get? k :=
      if_neg (fun h => hk h.left)
    rw [hkept]
    unfold mergeAccess
    split
    · rw [Dict.get?_set, if_neg (fun h => hk h.symm)]
    · rfl

theorem get?_foldl_mergeAccess (fragments : Dict String Fragment)
    (accesses : List (String × ℚ)) (times : Dict String ℚ) (k : String) :
    (accesses.foldl (mergeAccess fragments) times).get? k =
      accesses.foldl (mergeLast fragments k) (times.get? k) := by
  induction accesses generalizing times with
  | nil => rfl
  | cons access rest ih =>
    rw [List.foldl_cons, List.foldl_cons, ih, get?_mergeAccess]

theorem lastAccess_eq (t : FragmentTable) (k : String) :
    t.lastAccess k =
      t.buffered.flatten.foldl (mergeLast t.fragments k) (t.accessTimes.get? k) := by
  have hfold : forall (caches : List ReadCache) (times : Dict String ℚ),
      (caches.foldl (fun times cache =>
        cache.accesses.entries.foldl (mergeAccess t.fragments) times) times).get? k =
      (caches.map (fun cache => cache.accesses.entries)).flatten.foldl
        (mergeLast t.fragments k) (times.get? k) := by
    intro caches
    induction caches with
    | nil => exact fun _ => rfl
    | cons cache rest ih =>
      intro times
      rw [List.foldl_cons, ih, get?_foldl_mergeAccess, List.map_cons,
        List.flatten_cons, List.foldl_append]
  exact hfold t.caches.values t.accessTimes

theorem mergeLast_congr {fragments others : Dict String Fragment} {k : String}
    (h : k ∈ fragments <-> k ∈ others) : mergeLast fragments k = mergeLast others k := by
  funext last access
  unfold mergeLast
  simp only [h]

theorem lastAccess_congr {t t' : FragmentTable} {k : String}
    (hbuffered : t'.buffered = t.buffered) (hmem : k ∈ t'.fragments <-> k ∈ t.fragments)
    (htimes : t'.accessTimes.get? k = t.accessTimes.get? k) :
    t'.lastAccess k = t.lastAccess k := by
  rw [lastAccess_eq, lastAccess_eq, hbuffered, mergeLast_congr hmem, htimes]

theorem buffered_mapValues (t : FragmentTable) {change : ReadCache -> ReadCache}
    (h : forall cache, (change cache).accesses = cache.accesses) :
    ({ t with caches := t.caches.mapValues change } : FragmentTable).buffered =
      t.buffered := by
  unfold buffered Dict.values Dict.mapValues
  simp only [List.map_map]
  apply List.map_congr_left
  intro entry _hentry
  show (change entry.2).accesses.entries = entry.2.accesses.entries
  rw [h]

theorem lastAccess_recency (t : FragmentTable) (k : String) :
    t.recency.lastAccess k = t.lastAccess k := by
  have hempty : t.recency.buffered.flatten = [] := by
    apply List.flatten_eq_nil_iff.mpr
    intro accesses haccesses
    rcases List.mem_map.mp haccesses with ⟨cache, hcache, heq⟩
    rcases List.mem_map.mp hcache with ⟨entry, hentry, hcacheEq⟩
    rcases List.mem_map.mp hentry with ⟨old, _hold, hentryEq⟩
    rw [← heq, ← hcacheEq, ← hentryEq]
    rfl
  rw [lastAccess_eq, hempty]
  rfl

variable [InventoryHash]

theorem lastAccess_pop {t t' : FragmentTable} {k : String} {f : Fragment}
    (h : t.pop k = some (f, t')) {j : String} (hj : j ≠ k) :
    t'.lastAccess j = t.lastAccess j := by
  rcases (pop_eq_some_iff t k f t').mp h with ⟨_, ht'⟩
  apply lastAccess_congr
  · rw [ht']
    exact t.buffered_mapValues (fun _ => rfl)
  · rw [pop_fragments h, Dict.mem_erase]
    exact ⟨fun hmem => hmem.right, fun hmem => ⟨hj, hmem⟩⟩
  · rw [ht']
    exact t.accessTimes.get?_erase_of_ne hj

end FragmentTable

end Store
end Membrane
