import Mathlib.Data.List.GetD
import Membrane.Foundation.Nearest

/-!
# Rounding to the codes of eight bits

A value is clipped to the range of the codebook, its place among the ascending values is
found by a search, and the closer one of the two values around that place is chosen, the
lower one when both are as close.
-/

namespace Membrane
namespace Store

open Foundation

/-- The values of a format in ascending order, each with its code. -/
structure FP8Codebook (kappa : Type) where
  decode : kappa -> Rat
  sortedValues : List Rat
  sortedCodes : List kappa
  ascending : sortedValues.Pairwise (· < ·)
  two_le : 2 ≤ sortedValues.length
  decoded : sortedCodes.map decode = sortedValues

def searchsorted (values : List Rat) (x : Rat) : Nat :=
  values.findIdx (fun v => x ≤ v)

def clip (low high x : Rat) : Rat :=
  min (max x low) high

namespace FP8Codebook

variable {kappa : Type} (book : FP8Codebook kappa)

theorem zero_lt : 0 < book.sortedValues.length := by
  have h := book.two_le
  omega

def value (i : Nat) : Rat :=
  book.sortedValues.getD i 0

def clipped (x : Rat) : Rat :=
  clip (book.value 0) (book.value (book.sortedValues.length - 1)) x

def upper (x : Rat) : Nat :=
  min (max (searchsorted book.sortedValues (book.clipped x)) 1) (book.sortedValues.length - 1)

def nearest (x : Rat) : Nat :=
  if book.clipped x - book.value (book.upper x - 1) ≤
      book.value (book.upper x) - book.clipped x then
    book.upper x - 1
  else book.upper x

def fp8Encode (x : Rat) : Option kappa :=
  book.sortedCodes[book.nearest x]?

/-!
# The values around a place
-/

theorem getElem?_value {i : Nat} (h : i < book.sortedValues.length) :
    book.sortedValues[i]? = some (book.value i) := by
  unfold value
  rw [List.getD_eq_getElem _ _ h]
  exact List.getElem?_eq_getElem h

theorem value_mono {i j : Nat} (hij : i ≤ j) (hj : j < book.sortedValues.length) :
    book.value i ≤ book.value j := by
  rcases Nat.lt_or_eq_of_le hij with hlt | rfl
  · unfold value
    rw [List.getD_eq_getElem _ _ hj, List.getD_eq_getElem _ _ (by omega)]
    exact (List.pairwise_iff_getElem.mp book.ascending i j (by omega) hj hlt).le
  · exact le_rfl

theorem clipped_bounds (x : Rat) :
    book.value 0 ≤ book.clipped x ∧
      book.clipped x ≤ book.value (book.sortedValues.length - 1) := by
  have hlast := book.value_mono (Nat.zero_le _) (Nat.sub_lt book.zero_lt Nat.one_pos)
  exact ⟨le_min (le_max_right _ _) hlast, min_le_right _ _⟩

theorem clipped_mono {x y : Rat} (h : x ≤ y) : book.clipped x ≤ book.clipped y :=
  min_le_min_right _ (max_le_max_right _ h)

theorem searchsorted_spec (x : Rat) :
    searchsorted book.sortedValues (book.clipped x) < book.sortedValues.length ∧
      book.clipped x ≤ book.value (searchsorted book.sortedValues (book.clipped x)) ∧
      forall i, i < searchsorted book.sortedValues (book.clipped x) ->
        book.value i < book.clipped x := by
  have hlast : book.sortedValues.length - 1 < book.sortedValues.length :=
    Nat.sub_lt book.zero_lt Nat.one_pos
  have hmem : book.value (book.sortedValues.length - 1) ∈ book.sortedValues :=
    List.mem_of_getElem? (book.getElem?_value hlast)
  have hlt : searchsorted book.sortedValues (book.clipped x) < book.sortedValues.length :=
    List.findIdx_lt_length_of_exists
      ⟨_, hmem, decide_eq_true (book.clipped_bounds x).right⟩
  refine ⟨hlt, ?_, ?_⟩
  · unfold value
    rw [List.getD_eq_getElem _ _ hlt]
    exact of_decide_eq_true (List.findIdx_getElem (w := hlt))
  · intro i hi
    have hnot := List.not_of_lt_findIdx hi
    unfold value
    rw [List.getD_eq_getElem _ _ (hi.trans hlt)]
    exact lt_of_not_ge (of_decide_eq_false hnot)

theorem upper_spec (x : Rat) :
    0 < book.upper x ∧ book.upper x < book.sortedValues.length ∧
      book.value (book.upper x - 1) ≤ book.clipped x ∧
      book.clipped x ≤ book.value (book.upper x) := by
  have htwo := book.two_le
  obtain ⟨hlt, hle, hbelow⟩ := book.searchsorted_spec x
  have hupper : book.upper x = max (searchsorted book.sortedValues (book.clipped x)) 1 := by
    unfold upper
    omega
  rw [hupper]
  cases hplace : searchsorted book.sortedValues (book.clipped x) with
  | zero =>
    rw [hplace] at hle
    exact ⟨Nat.one_pos, by omega, (book.clipped_bounds x).left,
      hle.trans (book.value_mono (Nat.zero_le _) htwo)⟩
  | succ place =>
    rw [hplace] at hle hbelow hlt
    have hmax : max (place + 1) 1 = place + 1 := by omega
    rw [hmax]
    exact ⟨Nat.succ_pos _, hlt, (hbelow place (Nat.lt_succ_self _)).le, hle⟩

/-!
# The chosen code
-/

theorem nearest_value (x : Rat) :
    Nearest book.sortedValues (book.clipped x) (book.value (book.nearest x)) := by
  obtain ⟨hpos, hlt, hlow, hhigh⟩ := book.upper_spec x
  have hbelow := book.getElem?_value (Nat.lt_of_le_of_lt (Nat.sub_le (book.upper x) 1) hlt)
  have habove := book.getElem?_value hlt
  rw [← Nat.sub_add_cancel hpos] at habove
  have h := nearest_of_neighbours book.ascending hbelow habove hlow
    (by rw [Nat.sub_add_cancel hpos]; exact hhigh)
  rw [Nat.sub_add_cancel hpos] at h
  unfold nearest
  split
  next hcloser =>
      rw [if_pos hcloser] at h
      exact h
  next hfarther =>
      rw [if_neg hfarther] at h
      exact h

theorem fp8Encode_value (x : Rat) :
    exists code, book.fp8Encode x = some code ∧
      book.decode code = book.value (book.nearest x) := by
  have hlt : book.nearest x < book.sortedValues.length := by
    obtain ⟨_, hupper, _⟩ := book.upper_spec x
    unfold nearest
    split
    · omega
    · exact hupper
  have hvalue := book.getElem?_value hlt
  rw [← book.decoded, List.getElem?_map] at hvalue
  exact Option.map_eq_some_iff.mp hvalue

/-- A value is encoded as the code of the nearest value to what it is clipped to, and larger
values have codes of larger values. -/
theorem fp8Encode_nearest (x y : Rat) :
    exists code other, book.fp8Encode x = some code ∧ book.fp8Encode y = some other ∧
      Nearest book.sortedValues (book.clipped x) (book.decode code) ∧
      (x ≤ y -> book.decode code ≤ book.decode other) := by
  obtain ⟨code, hcode, hvalue⟩ := book.fp8Encode_value x
  obtain ⟨other, hother, hothervalue⟩ := book.fp8Encode_value y
  have hx := book.nearest_value x
  have hy := book.nearest_value y
  rw [← hvalue] at hx
  rw [← hothervalue] at hy
  exact ⟨code, other, hcode, hother, hx, fun h => hx.mono hy (book.clipped_mono h)⟩

def signs : FP8Codebook (Fin 3) :=
  { decode := fun code => (code.val : Rat) - 1
    sortedValues := [-1, 0, 1]
    sortedCodes := [0, 1, 2]
    ascending := by decide +kernel
    two_le := by decide
    decoded := by decide +kernel }

example : [-7, -1 / 2, -1 / 3, 1 / 2, 3 / 4, 9].map signs.fp8Encode =
    [some 0, some 0, some 1, some 1, some 2, some 2] := by
  decide +kernel

end FP8Codebook

end Store
end Membrane
