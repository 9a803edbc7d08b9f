import Mathlib.Data.Finset.Card
import Mathlib.Data.List.Sort
import Membrane.Foundation.Transition

/-!
# Reading a changing set page by page

A reader asks for one page after another of a set whose members may change between two
requests.  Members have a rank and cursors have a place in one linear order.  A page holds
the members that rank after the place of its cursor, up to the place of the next cursor.

Whatever happens between the requests, no member is returned twice and a member that is held
at every request is returned.  Once the set rests, the reader comes to an end.
-/

namespace Membrane
namespace Foundation

/-!
# The first members of a sorted list
-/

section Sorted

variable {alpha : Type} [LinearOrder alpha]

def sortedAfter (members : List alpha) (bound : alpha) : List alpha :=
  (members.filter (fun k => decide (bound < k))).insertionSort (· ≤ ·)

theorem mem_sortedAfter {members : List alpha} {bound k : alpha} :
    k ∈ sortedAfter members bound <-> k ∈ members ∧ bound < k := by
  unfold sortedAfter
  rw [List.mem_insertionSort, List.mem_filter, decide_eq_true_iff]

theorem pairwise_sortedAfter {members : List alpha} (h : members.Nodup) (bound : alpha) :
    (sortedAfter members bound).Pairwise (· < ·) := by
  have hle : (sortedAfter members bound).Pairwise (· ≤ ·) :=
    List.pairwise_insertionSort (· ≤ ·) _
  have hne : (sortedAfter members bound).Nodup :=
    (List.perm_insertionSort (· ≤ ·) _).nodup_iff.mpr (h.filter _)
  exact (hle.and hne).imp (fun h => lt_of_le_of_ne h.left h.right)

theorem mem_take_iff_le {l : List alpha} (h : l.Pairwise (· < ·)) {n : Nat} {last : alpha}
    (hlast : (l.take n).getLast? = some last) (k : alpha) :
    k ∈ l.take n <-> k ∈ l ∧ k ≤ last := by
  rcases List.getLast?_eq_some_iff.mp hlast with ⟨init, hinit⟩
  have hmem : last ∈ l.take n := List.mem_of_getLast? hlast
  have hleading : (init ++ [last]).Pairwise (· < ·) := by
    rw [← hinit]
    exact h.sublist (List.take_sublist n l)
  have hsplit : (l.take n ++ l.drop n).Pairwise (· < ·) := by
    rw [List.take_append_drop]
    exact h
  constructor
  · intro hk
    refine ⟨List.mem_of_mem_take hk, ?_⟩
    rw [hinit, List.mem_append, List.mem_singleton] at hk
    rcases hk with hk | hk
    · exact le_of_lt ((List.pairwise_append.mp hleading).right.right k hk last
        List.mem_cons_self)
    · exact le_of_eq hk
  · intro hk
    have hparts : k ∈ l.take n ++ l.drop n := by
      rw [List.take_append_drop]
      exact hk.left
    rcases List.mem_append.mp hparts with hfirst | hrest
    · exact hfirst
    · have hlt := (List.pairwise_append.mp hsplit).right.right last hmem k hrest
      exact absurd hk.right (not_le_of_gt hlt)

end Sorted

/-!
# Pages and their reader
-/

structure Reader (kappa gamma : Type) where
  cursor : Option gamma
  returned : List kappa

namespace Reader

variable {sigma kappa gamma : Type}

def start (cursor : gamma) : Reader kappa gamma :=
  { cursor := some cursor, returned := [] }

def turn (page : sigma -> gamma -> List kappa × Option gamma) (r : Reader kappa gamma)
    (s : sigma) : Reader kappa gamma :=
  match r.cursor with
  | none => r
  | some cursor =>
    { cursor := (page s cursor).2, returned := r.returned ++ (page s cursor).1 }

theorem turn_of_none {page : sigma -> gamma -> List kappa × Option gamma}
    {r : Reader kappa gamma} (h : r.cursor = none) (s : sigma) : r.turn page s = r := by
  rw [turn, h]

theorem turn_of_some {page : sigma -> gamma -> List kappa × Option gamma}
    {r : Reader kappa gamma} {cursor : gamma} (h : r.cursor = some cursor) (s : sigma) :
    r.turn page s =
      { cursor := (page s cursor).2, returned := r.returned ++ (page s cursor).1 } := by
  rw [turn, h]

end Reader

variable {sigma kappa gamma alpha : Type} [LinearOrder alpha]

/-- The members after the place of the cursor, up to that of the next one.  Only the last page may
be empty. -/
structure IsPage (rank : kappa -> alpha) (place : gamma -> alpha) (held : kappa -> Prop)
    (cursor : gamma) (page : List kappa × Option gamma) : Prop where
  nodup : page.1.Nodup
  mem_iff : forall k, k ∈ page.1 <->
    held k ∧ place cursor < rank k ∧ forall next, page.2 = some next -> rank k ≤ place next
  nonempty : forall next, page.2 = some next -> page.1 ≠ []

namespace Reader

variable {rank : kappa -> alpha} {place : gamma -> alpha} {held : sigma -> kappa -> Prop}
  {page : sigma -> gamma -> List kappa × Option gamma}

/-!
# No member twice
-/

/-- What was returned ranks up to the place of the cursor. -/
structure Ordered (rank : kappa -> alpha) (place : gamma -> alpha)
    (r : Reader kappa gamma) : Prop where
  nodup : r.returned.Nodup
  behind : forall cursor, r.cursor = some cursor ->
    forall k, k ∈ r.returned -> rank k ≤ place cursor

theorem start_ordered (cursor : gamma) :
    (start cursor : Reader kappa gamma).Ordered rank place where
  nodup := List.nodup_nil
  behind := fun _ _ _ hk => absurd hk List.not_mem_nil

theorem Ordered.turn {r : Reader kappa gamma} (h : r.Ordered rank place) {s : sigma}
    (hpage : forall cursor, IsPage rank place (held s) cursor (page s cursor)) :
    (r.turn page s).Ordered rank place := by
  cases hcursor : r.cursor with
  | none =>
    rw [turn_of_none hcursor]
    exact h
  | some cursor =>
    rw [turn_of_some hcursor]
    have hbehind := h.behind cursor hcursor
    have hmem := (hpage cursor).mem_iff
    constructor
    · rw [List.nodup_append]
      refine ⟨h.nodup, (hpage cursor).nodup, ?_⟩
      intro k hk other hother heq
      rw [← heq] at hother
      exact absurd (hbehind k hk) (not_le_of_gt ((hmem k).mp hother).right.left)
    · intro next hnext k hk
      rcases List.mem_append.mp hk with hold | hnew
      · rcases List.exists_mem_of_ne_nil _ ((hpage cursor).nonempty next hnext) with
          ⟨other, hother⟩
        have hbetween := ((hmem other).mp hother).right
        exact le_trans (hbehind k hold)
          (le_trans (le_of_lt hbetween.left) (hbetween.right next hnext))
      · exact ((hmem k).mp hnew).right.right next hnext

theorem run_ordered {states : List sigma}
    (hpage : forall s, s ∈ states ->
      forall cursor, IsPage rank place (held s) cursor (page s cursor))
    {r : Reader kappa gamma} (h : r.Ordered rank place) :
    (run (turn page) r states).Ordered rank place :=
  run_of_along (Ordered rank place) (fun _ _ hr hs => hr.turn hs) h
    (along_of_mem (fun _ s hs => hpage s hs) r)

/-!
# No member left out
-/

/-- The member was returned if the reader is past it. -/
def Passed (rank : kappa -> alpha) (place : gamma -> alpha) (k : kappa)
    (r : Reader kappa gamma) : Prop :=
  (forall cursor, r.cursor = some cursor -> rank k ≤ place cursor) -> k ∈ r.returned

theorem start_passed {cursor : gamma} {k : kappa} (h : place cursor < rank k) :
    (start cursor : Reader kappa gamma).Passed rank place k :=
  fun hpast => absurd (hpast cursor rfl) (not_le_of_gt h)

theorem Passed.turn {r : Reader kappa gamma} {k : kappa} (h : r.Passed rank place k)
    {s : sigma} (hpage : forall cursor, IsPage rank place (held s) cursor (page s cursor))
    (hheld : held s k) : (r.turn page s).Passed rank place k := by
  cases hcursor : r.cursor with
  | none =>
    rw [turn_of_none hcursor]
    exact h
  | some cursor =>
    rw [turn_of_some hcursor]
    intro hpast
    by_cases hbehind : rank k ≤ place cursor
    · have hreturned : k ∈ r.returned := by
        apply h
        intro other hother
        rw [hcursor] at hother
        cases hother
        exact hbehind
      exact List.mem_append_left _ hreturned
    · have hmem : k ∈ (page s cursor).1 :=
        ((hpage cursor).mem_iff k).mpr ⟨hheld, lt_of_not_ge hbehind, hpast⟩
      exact List.mem_append_right _ hmem

theorem mem_returned_of_held {states : List sigma}
    (hpage : forall s, s ∈ states ->
      forall cursor, IsPage rank place (held s) cursor (page s cursor))
    {first : gamma} {k : kappa} (hfirst : place first < rank k)
    (hheld : forall s, s ∈ states -> held s k)
    (hend : (run (turn page) (start first) states).cursor = none) :
    k ∈ (run (turn page) (start first) states).returned := by
  have hpassed : (run (turn page) (start first) states).Passed rank place k :=
    run_of_along (Passed rank place k) (fun _ s hr hs => hr.turn hs.left hs.right)
      (start_passed hfirst)
      (along_of_mem (fun _ s hs => And.intro (hpage s hs) (hheld s hs)) _)
  apply hpassed
  intro cursor hcursor
  rw [hend] at hcursor
  cases hcursor

/-!
# Coming to an end
-/

def ahead (rank : kappa -> alpha) (place : gamma -> alpha) (members : Finset kappa)
    (cursor : gamma) : Finset kappa :=
  members.filter (fun k => place cursor < rank k)

theorem ahead_card_lt {resident : kappa -> Prop} {members : Finset kappa} {cursor next : gamma}
    {found : List kappa × Option gamma} (hpage : IsPage rank place resident cursor found)
    (hmembers : forall k, resident k <-> k ∈ members) (hnext : found.2 = some next) :
    (ahead rank place members next).card < (ahead rank place members cursor).card := by
  rcases List.exists_mem_of_ne_nil _ (hpage.nonempty next hnext) with ⟨k, hk⟩
  have hbetween := (hpage.mem_iff k).mp hk
  have hle : rank k ≤ place next := hbetween.right.right next hnext
  apply Finset.card_lt_card
  constructor
  · intro other hother
    have hparts := Finset.mem_filter.mp hother
    exact Finset.mem_filter.mpr ⟨hparts.left,
      lt_trans (lt_of_lt_of_le hbetween.right.left hle) hparts.right⟩
  · intro hsubset
    have hin : k ∈ ahead rank place members cursor :=
      Finset.mem_filter.mpr ⟨(hmembers k).mp hbetween.left, hbetween.right.left⟩
    exact absurd (Finset.mem_filter.mp (hsubset hin)).right (not_lt_of_ge hle)

theorem exists_end_of_rest {s : sigma} {resident : kappa -> Prop} {members : Finset kappa}
    (hpage : forall cursor, IsPage rank place resident cursor (page s cursor))
    (hmembers : forall k, resident k <-> k ∈ members) (r : Reader kappa gamma) :
    exists turns, (run (turn page) r (List.replicate turns s)).cursor = none := by
  cases hcursor : r.cursor with
  | none => exact ⟨0, hcursor⟩
  | some cursor =>
    induction hsize : (ahead rank place members cursor).card using Nat.strong_induction_on
      generalizing r cursor with
    | _ size ih =>
      cases hnext : (page s cursor).2 with
      | none =>
        refine ⟨1, ?_⟩
        show (r.turn page s).cursor = none
        rw [turn_of_some hcursor]
        exact hnext
      | some next =>
        have hfewer := ahead_card_lt (hpage cursor) hmembers hnext
        rw [hsize] at hfewer
        have hturn : (r.turn page s).cursor = some next := by
          rw [turn_of_some hcursor]
          exact hnext
        rcases ih _ hfewer (r.turn page s) next hturn rfl with ⟨turns, hturns⟩
        exact ⟨turns + 1, hturns⟩

end Reader

end Foundation
end Membrane
