import Mathlib.Order.Lattice

/-!
# The latest of several values

Every value carries a clock.  The later of two values is the one with the larger
clock, and the first of the two when their clocks are equal.
-/

namespace Membrane
namespace Foundation

variable {alpha kappa : Type} [LinearOrder kappa]

def later (clock : alpha -> kappa) (a b : alpha) : alpha :=
  if clock b ≤ clock a then a else b

def latest (clock : alpha -> kappa) (first : alpha) (rest : List alpha) : alpha :=
  rest.foldl (later clock) first

def ClocksSeparate (clock : alpha -> kappa) (members : List alpha) : Prop :=
  forall a b, a ∈ members -> b ∈ members -> clock a = clock b -> a = b

variable {clock : alpha -> kappa} {a b c first second : alpha} {rest others : List alpha}

theorem later_eq_left (h : clock b ≤ clock a) : later clock a b = a := if_pos h

theorem later_eq_right (h : clock a < clock b) : later clock a b = b :=
  if_neg (not_le.mpr h)

theorem later_cases (clock : alpha -> kappa) (a b : alpha) :
    (clock b ≤ clock a ∧ later clock a b = a) ∨
      (clock a < clock b ∧ later clock a b = b) := by
  rcases le_or_gt (clock b) (clock a) with h | h
  · exact Or.inl ⟨h, later_eq_left h⟩
  · exact Or.inr ⟨h, later_eq_right h⟩

theorem later_mem {members : List alpha} (ha : a ∈ members) (hb : b ∈ members) :
    later clock a b ∈ members := by
  rcases later_cases clock a b with ⟨_, heq⟩ | ⟨_, heq⟩
  · rw [heq]
    exact ha
  · rw [heq]
    exact hb

theorem clock_le_later_left (clock : alpha -> kappa) (a b : alpha) :
    clock a ≤ clock (later clock a b) := by
  rcases later_cases clock a b with ⟨_, heq⟩ | ⟨h, heq⟩
  · rw [heq]
  · rw [heq]
    exact h.le

theorem clock_le_later_right (clock : alpha -> kappa) (a b : alpha) :
    clock b ≤ clock (later clock a b) := by
  rcases later_cases clock a b with ⟨h, heq⟩ | ⟨_, heq⟩
  · rw [heq]
    exact h
  · rw [heq]

theorem later_comm (h : clock a = clock b -> a = b) :
    later clock a b = later clock b a := by
  rcases lt_trichotomy (clock a) (clock b) with hlt | heq | hgt
  · rw [later_eq_right hlt, later_eq_left hlt.le]
  · rw [h heq]
  · rw [later_eq_left hgt.le, later_eq_right hgt]

theorem later_assoc (clock : alpha -> kappa) (a b c : alpha) :
    later clock (later clock a b) c = later clock a (later clock b c) := by
  rcases later_cases clock a b with ⟨hab, heq⟩ | ⟨hab, heq⟩
  · rw [heq]
    rcases later_cases clock b c with ⟨hbc, hlater⟩ | ⟨_, hlater⟩
    · rw [hlater, later_eq_left (hbc.trans hab), later_eq_left hab]
    · rw [hlater]
  · rw [heq]
    rcases later_cases clock b c with ⟨_, hlater⟩ | ⟨hbc, hlater⟩
    · rw [hlater, later_eq_right hab]
    · rw [hlater, later_eq_right (hab.trans hbc)]

theorem latest_mem (clock : alpha -> kappa) (first : alpha) (rest : List alpha) :
    latest clock first rest ∈ first :: rest := by
  induction rest generalizing first with
  | nil => exact List.mem_cons_self
  | cons next rest ih =>
    have hmem := ih (later clock first next)
    change latest clock (later clock first next) rest ∈ first :: next :: rest
    rcases List.mem_cons.mp hmem with heq | hrest
    · rw [heq]
      exact later_mem List.mem_cons_self
        (List.mem_cons_of_mem first List.mem_cons_self)
    · exact List.mem_cons_of_mem first (List.mem_cons_of_mem next hrest)

theorem clock_le_latest {first : alpha} {rest : List alpha} (h : a ∈ first :: rest) :
    clock a ≤ clock (latest clock first rest) := by
  induction rest generalizing first a with
  | nil =>
    rw [List.mem_singleton.mp h]
    exact le_refl _
  | cons next rest ih =>
    change clock a ≤ clock (latest clock (later clock first next) rest)
    rcases List.mem_cons.mp h with heq | h
    · rw [heq]
      exact (clock_le_later_left clock first next).trans (ih List.mem_cons_self)
    rcases List.mem_cons.mp h with heq | h
    · rw [heq]
      exact (clock_le_later_right clock first next).trans (ih List.mem_cons_self)
    · exact ih (List.mem_cons_of_mem _ h)

theorem latest_perm (hseparate : ClocksSeparate clock (first :: rest))
    (hperm : (first :: rest).Perm (second :: others)) :
    latest clock first rest = latest clock second others := by
  have hmem := latest_mem clock first rest
  have hother := hperm.symm.subset (latest_mem clock second others)
  apply hseparate _ _ hmem hother
  apply le_antisymm
  · exact clock_le_latest (hperm.subset hmem)
  · exact clock_le_latest hother

end Foundation
end Membrane
