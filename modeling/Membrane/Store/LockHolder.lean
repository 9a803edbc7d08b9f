import Membrane.Store.Threads

/-!
# The holder of the table's lock

An insertion puts the fragment into the map before it writes its insertion time,
and a removal takes it from the map before it erases its time.  What the maps
hold in between depends on the phase of the operation that holds the lock, and
not on the lookups.
-/

namespace Membrane
namespace Store

open Foundation Data

def Writer.Removes (k : String) : Writer -> Prop
  | .counting c _ => c = k
  | .dropping c _ _ => c = k
  | .unbooking _ c _ => c = k
  | _ => False

def Writer.Uncounted (k : String) : Writer -> Prop
  | .counting c _ => c = k
  | _ => False

/-- A removal of the key has yet to visit the cache of a thread. -/
def Writer.WillDrop (thread : Thread) (k : String) : Writer -> Prop
  | .counting c _ => c = k
  | .dropping c _ pending => c = k ∧ thread ∈ pending
  | _ => False

/-- A removal of the key has not erased its insertion time yet. -/
def Writer.KeepsTime (k : String) : Writer -> Prop
  | .counting c _ => c = k
  | .dropping c _ _ => c = k
  | .unbooking .tenantKey _ _ => False
  | .unbooking .payloadRef _ _ => False
  | .unbooking _ c _ => c = k
  | _ => False

def Writer.Inserts (k : String) : Writer -> Prop
  | .adding .fragment f _ _ => f.key = k
  | _ => False

/-- An insertion of the key has not written its insertion time yet. -/
def Writer.Untimed (k : String) : Writer -> Prop
  | .adding .fragment f _ _ => f.key = k
  | .adding .memory f _ _ => f.key = k
  | .adding .insertionTime f _ _ => f.key = k
  | _ => False

structure Locked (t : FragmentTable) (w : Writer) : Prop where
  removed : forall k, w.Removes k -> t.fragments.get? k = none
  absent : forall k, w.Inserts k -> t.fragments.get? k = none
  untimed : forall k, w.Untimed k -> t.insertionTimes.get? k = none
  inserted : forall k, w.Untimed k ->
    w.Inserts k ∨ exists f, t.fragments.get? k = some f
  timed : forall k f, t.fragments.get? k = some f ->
    (exists time, t.insertionTimes.get? k = some time) ∨ w.Untimed k
  resident : forall k time, t.insertionTimes.get? k = some time ->
    (exists f, t.fragments.get? k = some f) ∨ w.KeepsTime k

namespace Locked

variable {t t' : FragmentTable} {w w' : Writer}

theorem create : Locked FragmentTable.create .free where
  removed _ h := h.elim
  absent _ h := h.elim
  untimed _ h := h.elim
  inserted _ h := h.elim
  timed _ _ h := by cases h
  resident _ _ h := by cases h

theorem of_quiet (h : Locked t w) (hfragments : t'.fragments = t.fragments)
    (htimes : t'.insertionTimes = t.insertionTimes)
    (hremoves : forall k, w'.Removes k -> w.Removes k)
    (hinserts : forall k, w'.Inserts k <-> w.Inserts k)
    (huntimed : forall k, w'.Untimed k <-> w.Untimed k)
    (hkeeps : forall k, w.KeepsTime k -> w'.KeepsTime k) : Locked t' w' where
  removed k hk := by
    rw [hfragments]
    exact h.removed k (hremoves k hk)
  absent k hk := by
    rw [hfragments]
    exact h.absent k ((hinserts k).mp hk)
  untimed k hk := by
    rw [htimes]
    exact h.untimed k ((huntimed k).mp hk)
  inserted k hk := by
    rw [hfragments, hinserts]
    exact h.inserted k ((huntimed k).mp hk)
  timed k f hf := by
    rw [hfragments] at hf
    rw [htimes, huntimed]
    exact h.timed k f hf
  resident k time htime := by
    rw [htimes] at htime
    rw [hfragments]
    exact (h.resident k time htime).imp_right (hkeeps k)

theorem addFragment {f : Fragment} {now : ℚ} {isPrimary : Bool}
    (h : Locked t (.adding .fragment f now isPrimary)) :
    Locked (t.addFragment f) (.adding .memory f now isPrimary) where
  removed _ hk := hk.elim
  absent _ hk := hk.elim
  untimed k hk := h.untimed k hk
  inserted k hk := by
    rw [← hk]
    exact Or.inr ⟨f, Dict.get?_set_self _ _ _⟩
  timed k g hg := by
    by_cases hkey : f.key = k
    · exact Or.inr hkey
    · change (t.fragments.set f.key f).get? k = some g at hg
      rw [Dict.get?_set_of_ne _ _ (Ne.symm hkey)] at hg
      exact h.timed k g hg
  resident k time htime := by
    rcases h.resident k time htime with ⟨g, hg⟩ | hfalse
    · by_cases hkey : k = f.key
      · exact Or.inl ⟨f, by rw [hkey]; exact Dict.get?_set_self _ _ _⟩
      · exact Or.inl ⟨g, by rw [← hg]; exact Dict.get?_set_of_ne _ _ hkey⟩
    · exact hfalse.elim

theorem addInsertionTime {f : Fragment} {now : ℚ} {isPrimary : Bool}
    (h : Locked t (.adding .insertionTime f now isPrimary)) :
    Locked (t.addInsertionTime f now) (.adding .digest f now isPrimary) where
  removed _ hk := hk.elim
  absent _ hk := hk.elim
  untimed _ hk := hk.elim
  inserted _ hk := hk.elim
  timed k g hg := by
    by_cases hkey : k = f.key
    · exact Or.inl ⟨now, by rw [hkey]; exact Dict.get?_set_self _ _ _⟩
    · rcases h.timed k g hg with ⟨time, htime⟩ | hsame
      · exact Or.inl ⟨time, by rw [← htime]; exact Dict.get?_set_of_ne _ _ hkey⟩
      · exact absurd hsame.symm hkey
  resident k time htime := by
    by_cases hkey : k = f.key
    · rcases h.inserted k hkey.symm with hfalse | hresident
      · exact hfalse.elim
      · exact Or.inl hresident
    · change (t.insertionTimes.set f.key now).get? k = some time at htime
      rw [Dict.get?_set_of_ne _ _ hkey] at htime
      exact (h.resident k time htime).imp_right (fun hfalse => hfalse.elim)

theorem popInsertionTime {k : String} {f : Fragment}
    (h : Locked t (.unbooking .insertionTime k f)) :
    Locked (t.popInsertionTime k) (.unbooking .tenantKey k f) where
  removed c hc := h.removed c hc
  absent _ hc := hc.elim
  untimed _ hc := hc.elim
  inserted _ hc := hc.elim
  timed c g hg := by
    have hkey : c ≠ k := by
      intro hc
      have hgone : (t.popInsertionTime k).fragments.get? c = none := h.removed c hc.symm
      rw [hgone] at hg
      cases hg
    rcases h.timed c g hg with ⟨time, htime⟩ | hfalse
    · exact Or.inl ⟨time, by rw [← htime]; exact Dict.get?_erase_of_ne _ hkey⟩
    · exact hfalse.elim
  resident c time htime := by
    change (t.insertionTimes.erase k).get? c = some time at htime
    rw [Dict.get?_erase] at htime
    split at htime
    · cases htime
    · rename_i hkey
      rcases h.resident c time htime with hresident | hc
      · exact Or.inl hresident
      · exact absurd hc.symm hkey

theorem popFragment (h : Locked t .free) (k : String) (f : Fragment) :
    Locked (t.popFragment k) (.counting k f) where
  removed c hc := by
    rw [← hc]
    exact Dict.get?_erase_self _ _
  absent _ hc := hc.elim
  untimed _ hc := hc.elim
  inserted _ hc := hc.elim
  timed c g hg := by
    change (t.fragments.erase k).get? c = some g at hg
    rw [Dict.get?_erase] at hg
    split at hg
    · cases hg
    · exact (h.timed c g hg).imp_right (fun hfalse => hfalse.elim)
  resident c time htime := by
    by_cases hkey : c = k
    · exact Or.inr hkey.symm
    · rcases h.resident c time htime with ⟨g, hg⟩ | hfalse
      · exact Or.inl ⟨g, by rw [← hg]; exact Dict.get?_erase_of_ne _ hkey⟩
      · exact hfalse.elim

theorem beginAdd (h : Locked t .free) {f : Fragment} (habsent : ¬ f.key ∈ t.fragments)
    (now : ℚ) (isPrimary : Bool) : Locked t (.adding .fragment f now isPrimary) where
  removed _ hk := hk.elim
  absent k hk := by
    rw [← hk]
    exact (Dict.get?_eq_none_iff _ _).mpr habsent
  untimed k hk := by
    cases htime : t.insertionTimes.get? k with
    | none => rfl
    | some time =>
      rcases h.resident k time htime with hresident | hfalse
      · rw [← hk] at hresident
        exact absurd ((Dict.mem_iff_exists_get? _ _).mpr hresident) habsent
      · exact hfalse.elim
  inserted k hk := Or.inl hk
  timed k g hg := (h.timed k g hg).imp_right (fun hfalse => hfalse.elim)
  resident k time htime := (h.resident k time htime).imp_right (fun hfalse => hfalse.elim)

theorem advance [InventoryHash] (h : Locked t w) (thread : Thread) :
    Locked (w.advance t thread).2 (w.advance t thread).1 := by
  have hsame : forall {p : String -> Prop} k, p k <-> p k := fun _ => Iff.rfl
  have hkept : forall {p : String -> Prop} k, p k -> p k := fun _ hk => hk
  cases w with
  | free => exact h
  | adding stage f now isPrimary =>
    cases stage with
    | fragment => exact h.addFragment
    | insertionTime => exact h.addInsertionTime
    | memory | digest | tenantKey | payloadRef | touch =>
      exact h.of_quiet rfl rfl hkept hsame hsame hkept
  | counting k f => exact h.of_quiet rfl rfl hkept hsame hsame hkept
  | dropping k f pending =>
    show Locked (Writer.dropNext t thread k f pending).2
      (Writer.dropNext t thread k f pending).1
    unfold Writer.dropNext
    split_ifs
    · exact h.of_quiet rfl rfl hkept hsame hsame hkept
    · exact h.of_quiet rfl rfl hkept hsame hsame hkept
    · exact h
  | unbooking stage k f =>
    cases stage with
    | insertionTime => exact h.popInsertionTime
    | digest | memory | primary | accessTime | tenantKey =>
      exact h.of_quiet rfl rfl hkept hsame hsame hkept
    | payloadRef => exact h.of_quiet rfl rfl (fun _ hfalse => hfalse.elim) hsame hsame hkept

end Locked

end Store
end Membrane
