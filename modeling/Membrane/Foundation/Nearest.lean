import Mathlib.Algebra.Order.Field.Basic
import Mathlib.Data.List.Sort
import Mathlib.Tactic.Linarith

/-!
# Nearest points

A point of a list is the nearest one to a number when no point is closer and no smaller point
is as close.  Between two neighbours of an ascending list the closer one is the nearest, and
nearest points are in the order of the numbers.
-/

namespace Membrane
namespace Foundation

variable {alpha : Type} [LinearOrder alpha]

theorem le_or_le_of_pairwise {points : List alpha} (h : points.Pairwise (· < ·)) {i : Nat}
    {low high : alpha} (hlow : points[i]? = some low) (hhigh : points[i + 1]? = some high)
    {other : alpha} (hother : other ∈ points) : other ≤ low ∨ high ≤ other := by
  obtain ⟨j, hj, rfl⟩ := List.getElem_of_mem hother
  obtain ⟨hi, rfl⟩ := List.getElem?_eq_some_iff.mp hlow
  obtain ⟨hi', rfl⟩ := List.getElem?_eq_some_iff.mp hhigh
  have hmono := List.pairwise_iff_getElem.mp h
  rcases Nat.lt_trichotomy j i with hlt | heq | hgt
  · exact Or.inl (hmono j i hj hi hlt).le
  · subst heq
    exact Or.inl le_rfl
  · rcases Nat.lt_or_eq_of_le (Nat.succ_le_of_lt hgt) with hlt | heq
    · exact Or.inr (hmono (i + 1) j hi' hj hlt).le
    · subst heq
      exact Or.inr le_rfl

variable [Field alpha] [IsStrictOrderedRing alpha]

def Nearest (points : List alpha) (x point : alpha) : Prop :=
  point ∈ points ∧ forall other, other ∈ points ->
    |x - point| ≤ |x - other| ∧ (|x - other| = |x - point| -> point ≤ other)

theorem Nearest.mono {points : List alpha} {x y p q : alpha} (hx : Nearest points x p)
    (hy : Nearest points y q) (h : x ≤ y) : p ≤ q := by
  by_contra hlt
  have hlt : q < p := lt_of_not_ge hlt
  obtain ⟨hcloser, htie⟩ := hx.right q hy.left
  have hstrict : |x - p| < |x - q| :=
    lt_of_le_of_ne hcloser (fun heq => hlt.not_ge (htie heq.symm))
  have hother := (hy.right p hx.left).left
  rcases abs_cases (x - p) with ⟨h1, h2⟩ | ⟨h1, h2⟩ <;>
    rcases abs_cases (x - q) with ⟨h3, h4⟩ | ⟨h3, h4⟩ <;>
    rcases abs_cases (y - p) with ⟨h5, h6⟩ | ⟨h5, h6⟩ <;>
    rcases abs_cases (y - q) with ⟨h7, h8⟩ | ⟨h7, h8⟩ <;>
    linarith

theorem nearest_of_neighbours {points : List alpha} (h : points.Pairwise (· < ·)) {i : Nat}
    {low high : alpha} (hlow : points[i]? = some low) (hhigh : points[i + 1]? = some high)
    {x : alpha} (hle : low ≤ x) (hge : x ≤ high) :
    Nearest points x (if x - low ≤ high - x then low else high) := by
  have hlowmem : low ∈ points := List.mem_of_getElem? hlow
  have hhighmem : high ∈ points := List.mem_of_getElem? hhigh
  have hlowdist : |x - low| = x - low := abs_of_nonneg (by linarith)
  have hhighdist : |x - high| = high - x := by
    rw [abs_sub_comm]
    exact abs_of_nonneg (by linarith)
  have hdist : forall other, other ∈ points ->
      other ≤ low ∧ |x - other| = x - other ∨ high ≤ other ∧ |x - other| = other - x := by
    intro other hother
    rcases le_or_le_of_pairwise h hlow hhigh hother with hbelow | habove
    · exact Or.inl ⟨hbelow, abs_of_nonneg (by linarith)⟩
    · rw [abs_sub_comm]
      exact Or.inr ⟨habove, abs_of_nonneg (by linarith)⟩
  split
  next hcloser =>
      refine ⟨hlowmem, fun other hother => ?_⟩
      rcases hdist other hother with ⟨hbelow, hdist⟩ | ⟨habove, hdist⟩
      · rw [hdist, hlowdist]
        exact ⟨by linarith, fun htie => by linarith⟩
      · rw [hdist, hlowdist]
        exact ⟨by linarith, fun _ => by linarith⟩
  next hfarther =>
      have hfarther : high - x < x - low := lt_of_not_ge hfarther
      refine ⟨hhighmem, fun other hother => ?_⟩
      rcases hdist other hother with ⟨hbelow, hdist⟩ | ⟨habove, hdist⟩
      · rw [hdist, hhighdist]
        exact ⟨by linarith, fun htie => by linarith⟩
      · rw [hdist, hhighdist]
        exact ⟨by linarith, fun _ => habove⟩

end Foundation
end Membrane
