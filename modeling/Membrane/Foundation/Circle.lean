import Mathlib.Data.List.Sort

/-!
# Walking around a circle of points

Points lie on a circle in the order of their keys, and each has an owner.  A walk starts at a
bound and goes once around.  The owners are met in the order of their first points.

Taking an owner off the circle takes it out of every walk and out of the order in which the
owners are met, and changes neither in any other way.
-/

namespace Membrane
namespace Foundation

/-!
# First occurrences
-/

section FirstOccurrences

variable {beta : Type} [DecidableEq beta]

/-- Every first occurrence is followed by those of the other members. -/
theorem eraseDups_induction {motive : List beta -> Prop} (hnil : motive [])
    (hcons : forall a rest, motive (rest.filter (fun b => !b == a)) -> motive (a :: rest))
    (l : List beta) : motive l := by
  induction hlength : l.length using Nat.strong_induction_on generalizing l with
  | _ n ih =>
    cases l with
    | nil => exact hnil
    | cons a rest =>
      have hle := List.length_filter_le (fun b => !b == a) rest
      rw [List.length_cons] at hlength
      exact hcons a rest (ih _ (by omega) _ rfl)

theorem eraseDups_filter (l : List beta) (p : beta -> Bool) :
    (l.filter p).eraseDups = l.eraseDups.filter p := by
  induction l using eraseDups_induction with
  | hnil => rfl
  | hcons a rest ih =>
    rw [List.eraseDups_cons]
    by_cases ha : p a = true
    · rw [List.filter_cons_of_pos ha, List.filter_cons_of_pos ha, List.eraseDups_cons,
        ← ih, List.filter_comm]
    · rw [List.filter_cons_of_neg ha, List.filter_cons_of_neg ha, ← ih, List.filter_filter]
      congr 1
      apply List.filter_congr
      intro b _
      by_cases hb : b = a
      · rw [hb]
        simp [ha]
      · simp [hb]

theorem nodup_eraseDups (l : List beta) : l.eraseDups.Nodup := by
  induction l using eraseDups_induction with
  | hnil => exact List.nodup_nil
  | hcons a rest ih =>
    rw [List.eraseDups_cons, List.nodup_cons, List.mem_eraseDups]
    refine ⟨?_, ih⟩
    intro h
    simp at h

theorem take_filter_ne {l : List beta} (h : l.Nodup) (x : beta) (n : Nat) :
    (l.filter (fun b => decide (b ≠ x))).take n =
      ((l.take (n + 1)).filter (fun b => decide (b ≠ x))).take n := by
  induction l generalizing n with
  | nil => simp
  | cons a rest ih =>
    rw [List.nodup_cons] at h
    by_cases ha : a = x
    · have hkept : forall part : List beta, part.Sublist rest ->
          part.filter (fun b => decide (b ≠ x)) = part := by
        intro part hpart
        rw [List.filter_eq_self]
        intro b hb
        rw [decide_eq_true_iff]
        intro hbx
        rw [hbx, ← ha] at hb
        exact h.left (hpart.subset hb)
      have hdropped : forall part : List beta,
          (a :: part).filter (fun b => decide (b ≠ x)) =
            part.filter (fun b => decide (b ≠ x)) := fun part => by simp [ha]
      rw [List.take_succ_cons, hdropped, hdropped, hkept rest (List.Sublist.refl rest),
        hkept (rest.take n) (List.take_sublist n rest), List.take_take, Nat.min_self]
    · have hkept : forall part : List beta,
          (a :: part).filter (fun b => decide (b ≠ x)) =
            a :: part.filter (fun b => decide (b ≠ x)) := fun part => by simp [ha]
      rw [List.take_succ_cons, hkept, hkept]
      cases n with
      | zero => rfl
      | succ n => rw [List.take_succ_cons, List.take_succ_cons, ih h.right]

end FirstOccurrences

/-!
# Points in order
-/

section Points

variable {alpha beta : Type} [LinearOrder alpha]

def around (points : List (alpha × beta)) (bound : alpha) : List (alpha × beta) :=
  points.dropWhile (fun point => decide (point.1 < bound)) ++
    points.takeWhile (fun point => decide (point.1 < bound))

variable {points : List (alpha × beta)}

theorem takeWhile_dropWhile_of_sorted (h : points.Pairwise (fun x y => x.1 < y.1))
    (bound : alpha) :
    points.takeWhile (fun point => decide (point.1 < bound)) =
        points.filter (fun point => decide (point.1 < bound)) ∧
      points.dropWhile (fun point => decide (point.1 < bound)) =
        points.filter (fun point => !decide (point.1 < bound)) := by
  induction points with
  | nil => exact ⟨rfl, rfl⟩
  | cons first rest ih =>
    rw [List.pairwise_cons] at h
    by_cases hfirst : first.1 < bound
    · simp [hfirst, ih h.right]
    · have hlater : forall point, point ∈ rest -> ¬ point.1 < bound :=
        fun point hpoint hlt => hfirst (lt_trans (h.left point hpoint) hlt)
      have hnone : rest.filter (fun point => decide (point.1 < bound)) = [] :=
        List.filter_eq_nil_iff.mpr fun point hpoint => by simpa using hlater point hpoint
      have hall : rest.filter (fun point => !decide (point.1 < bound)) = rest :=
        List.filter_eq_self.mpr fun point hpoint => by simpa using hlater point hpoint
      simp [hfirst, hnone, hall]

theorem mem_around {bound : alpha} {point : alpha × beta} :
    point ∈ around points bound <-> point ∈ points := by
  unfold around
  rw [List.mem_append, or_comm, ← List.mem_append, List.takeWhile_append_dropWhile]

theorem around_filter (h : points.Pairwise (fun x y => x.1 < y.1)) (kept : alpha × beta -> Bool)
    (bound : alpha) : around (points.filter kept) bound = (around points bound).filter kept := by
  have hkept : (points.filter kept).Pairwise (fun x y => x.1 < y.1) :=
    h.sublist List.filter_sublist
  have hparts := takeWhile_dropWhile_of_sorted h bound
  have hkeptParts := takeWhile_dropWhile_of_sorted hkept bound
  unfold around
  rw [hparts.left, hparts.right, hkeptParts.left, hkeptParts.right, List.filter_append,
    List.filter_comm kept, List.filter_comm kept]

theorem eq_of_sorted {others : List (alpha × beta)} (h : points.Pairwise (fun x y => x.1 < y.1))
    (hothers : others.Pairwise (fun x y => x.1 < y.1))
    (hmem : forall point, point ∈ points <-> point ∈ others) : points = others := by
  have hnodup : forall l : List (alpha × beta), l.Pairwise (fun x y => x.1 < y.1) ->
      l.Nodup := by
    intro l hl
    apply hl.imp
    intro x y hxy heq
    rw [heq] at hxy
    exact lt_irrefl _ hxy
  apply List.Perm.eq_of_pairwise _ h hothers
  · exact (List.perm_ext_iff_of_nodup (hnodup points h) (hnodup others hothers)).mpr hmem
  · intro x y _ _ hxy hyx
    exact absurd hyx (lt_asymm hxy)

end Points

end Foundation
end Membrane
