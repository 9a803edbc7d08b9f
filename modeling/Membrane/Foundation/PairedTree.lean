import Mathlib.Data.Nat.Basic
import Mathlib.Data.List.Basic

/-!
# Pairing up a level

Neighbours of a level are joined to the level above, and the last one of an odd level with
itself, until one is left.  With an operation that forgets nothing the result is a tree, and
what is computed with another operation is an interpretation of that tree.
-/

namespace Membrane
namespace Foundation

section Levels

variable {alpha beta : Type}

def pairUp (join : alpha -> alpha -> alpha) : List alpha -> List alpha
  | [] => []
  | [a] => [join a a]
  | a :: b :: rest => join a b :: pairUp join rest

def foldLevels (join : alpha -> alpha -> alpha) : Nat -> List alpha -> List alpha
  | 0, level => level
  | fuel + 1, level =>
    if 1 < level.length then foldLevels join fuel (pairUp join level) else level

theorem length_pairUp (join : alpha -> alpha -> alpha) (level : List alpha) :
    (pairUp join level).length = (level.length + 1) / 2 := by
  induction level using pairUp.induct with
  | case1 => simp [pairUp]
  | case2 a => simp [pairUp]
  | case3 a b rest ih =>
    simp only [pairUp, List.length_cons, ih]
    omega

section

variable {join : alpha -> alpha -> alpha}

/-- A level above a level of several is shorter. -/
theorem length_foldLevels {fuel : Nat} {level : List alpha} (hnonempty : level ≠ [])
    (hfuel : level.length ≤ fuel + 1) : (foldLevels join fuel level).length = 1 := by
  have hpos : 0 < level.length := List.length_pos_iff.mpr hnonempty
  induction fuel generalizing level with
  | zero =>
    show level.length = 1
    omega
  | succ fuel ih =>
    have hlength := length_pairUp join level
    unfold foldLevels
    split_ifs with hseveral
    · have habove : 0 < (pairUp join level).length := by omega
      exact ih (List.length_pos_iff.mp habove) (by omega) habove
    · omega

theorem map_pairUp {other : beta -> beta -> beta} {f : alpha -> beta}
    (hf : forall a b, f (join a b) = other (f a) (f b)) (level : List alpha) :
    (pairUp join level).map f = pairUp other (level.map f) := by
  induction level using pairUp.induct with
  | case1 => rfl
  | case2 a => exact congrArg (fun b => [b]) (hf a a)
  | case3 a b rest ih =>
    simp only [pairUp, List.map_cons, hf, ih]

theorem map_foldLevels {other : beta -> beta -> beta} {f : alpha -> beta}
    (hf : forall a b, f (join a b) = other (f a) (f b)) (fuel : Nat) (level : List alpha) :
    (foldLevels join fuel level).map f = foldLevels other fuel (level.map f) := by
  induction fuel generalizing level with
  | zero => rfl
  | succ fuel ih =>
    unfold foldLevels
    rw [List.length_map]
    split_ifs
    · rw [ih, map_pairUp hf]
    · rfl

/-- A property of what is joined that holds of one side, and of nothing else. -/
theorem exists_pairUp_iff {holds : alpha -> Prop}
    (hjoin : forall a b, holds (join a b) <-> holds a ∨ holds b) (level : List alpha) :
    (exists a, a ∈ pairUp join level ∧ holds a) <-> exists a, a ∈ level ∧ holds a := by
  induction level using pairUp.induct with
  | case1 => exact Iff.rfl
  | case2 a =>
    simp only [pairUp, List.mem_singleton, exists_eq_left, hjoin, or_self]
  | case3 a b rest ih =>
    simp only [pairUp, List.mem_cons, or_and_right, exists_or, exists_eq_left, hjoin, ih,
      or_assoc]

theorem exists_foldLevels_iff {holds : alpha -> Prop}
    (hjoin : forall a b, holds (join a b) <-> holds a ∨ holds b) (fuel : Nat)
    (level : List alpha) :
    (exists a, a ∈ foldLevels join fuel level ∧ holds a) <->
      exists a, a ∈ level ∧ holds a := by
  induction fuel generalizing level with
  | zero => exact Iff.rfl
  | succ fuel ih =>
    unfold foldLevels
    split_ifs
    · exact (ih _).trans (exists_pairUp_iff hjoin level)
    · exact Iff.rfl

end

theorem headD_map (f : alpha -> beta) {level : List alpha}
    (h : level ≠ []) (a : alpha) (b : beta) : (level.map f).headD b = f (level.headD a) := by
  cases level with
  | nil => exact absurd rfl h
  | cons first rest => rfl

end Levels

inductive PairedTree (alpha : Type) where
  | leaf (a : alpha)
  | node (left right : PairedTree alpha)
  deriving DecidableEq

def PairedTree.leaves {alpha : Type} : PairedTree alpha -> List alpha
  | leaf a => [a]
  | node left right => left.leaves ++ right.leaves

end Foundation
end Membrane
