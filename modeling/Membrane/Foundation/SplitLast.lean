import Mathlib.Data.List.Basic

/-!
# Splitting at the last separator

Splitting a list at the last occurrence of a separator is inverse to joining
two lists around that separator exactly when the second list is free of it.
-/

namespace Membrane
namespace Foundation

variable {alpha : Type}

variable [DecidableEq alpha]

def splitLast (sep : alpha) : List alpha -> Option (List alpha × List alpha)
  | [] => none
  | a :: rest =>
    match splitLast sep rest with
    | some (before, after) => some (a :: before, after)
    | none => if a = sep then some ([], rest) else none

theorem splitLast_eq_none_iff (sep : alpha) (xs : List alpha) :
    splitLast sep xs = none <-> ¬ sep ∈ xs := by
  induction xs with
  | nil => simp [splitLast]
  | cons a rest ih =>
    cases hrest : splitLast sep rest with
    | none =>
      have hnot : ¬ sep ∈ rest := ih.mp hrest
      by_cases ha : a = sep
      · simp [splitLast, hrest, ha]
      · simp [splitLast, hrest, ha, hnot, Ne.symm ha]
    | some parts =>
      have hmem : sep ∈ rest := by
        by_contra hnot
        rw [ih.mpr hnot] at hrest
        cases hrest
      simp [splitLast, hrest, hmem]

theorem splitLast_append_cons {sep : alpha} (before after : List alpha) (h : ¬ sep ∈ after) :
    splitLast sep (before ++ sep :: after) = some (before, after) := by
  induction before with
  | nil =>
    have hnone : splitLast sep after = none :=
      (splitLast_eq_none_iff sep after).mpr h
    simp [splitLast, hnone]
  | cons a rest ih =>
    simp [splitLast, ih]

theorem splitLast_some {sep : alpha} {xs before after : List alpha}
    (h : splitLast sep xs = some (before, after)) :
    xs = before ++ sep :: after ∧ ¬ sep ∈ after := by
  induction xs generalizing before with
  | nil => cases h
  | cons a rest ih =>
    cases hrest : splitLast sep rest with
    | none =>
      simp only [splitLast, hrest] at h
      by_cases ha : a = sep
      · rw [if_pos ha] at h
        cases h
        constructor
        · rw [ha, List.nil_append]
        · exact (splitLast_eq_none_iff sep _).mp hrest
      · rw [if_neg ha] at h
        cases h
    | some parts =>
      rcases parts with ⟨front, back⟩
      simp only [splitLast, hrest] at h
      cases h
      rcases ih hrest with ⟨hrestEq, hafter⟩
      exact ⟨by rw [hrestEq, List.cons_append], hafter⟩

end Foundation
end Membrane
