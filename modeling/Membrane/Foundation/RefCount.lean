import Mathlib.Algebra.Order.Ring.Int
import Membrane.Foundation.Dict

/-!
# Reference counts

Keys of an index may each use one shared resource.  A table of counters mirrors how many
keys use each resource; a counter is kept only while it is positive.
-/

namespace Membrane
namespace Foundation

variable {kappa beta rho : Type} [DecidableEq rho]

def users (index : Dict kappa beta) (refOf : kappa -> Option rho) (ref : rho) : Nat :=
  index.keys.countP (fun k => decide (refOf k = some ref))

def adjust (refs : Dict rho Int) (ref : Option rho) (delta : Int) : Dict rho Int :=
  match ref with
  | none => refs
  | some ref =>
    if 0 < refs.getD ref 0 + delta then refs.set ref (refs.getD ref 0 + delta)
    else refs.erase ref

def Counts (refs : Dict rho Int) (index : Dict kappa beta) (refOf : kappa -> Option rho) :
    Prop :=
  forall ref, refs.getD ref 0 = users index refOf ref

theorem getD_adjust (refs : Dict rho Int) (ref : rho) (delta : Int) (other : rho) :
    (adjust refs (some ref) delta).getD other 0 =
      if other = ref then max (refs.getD ref 0 + delta) 0 else refs.getD other 0 := by
  have hcount : forall n : Int, (if 0 < n then refs.set ref n else refs.erase ref).getD other 0 =
      if other = ref then max n 0 else refs.getD other 0 := by
    intro n
    by_cases hpositive : 0 < n
    · rw [if_pos hpositive, max_eq_left hpositive.le]
      unfold Dict.getD
      rw [Dict.get?_set]
      split_ifs <;> rfl
    · rw [if_neg hpositive, max_eq_right (not_lt.mp hpositive)]
      unfold Dict.getD
      rw [Dict.get?_erase]
      split_ifs <;> rfl
  exact hcount _

/-!
# Uses of an index that changes
-/

variable {index : Dict kappa beta} {refOf : kappa -> Option rho} {k : kappa}

theorem users_congr {refOf' : kappa -> Option rho}
    (h : forall k, k ∈ index -> refOf' k = refOf k) (ref : rho) :
    users index refOf' ref = users index refOf ref := by
  apply List.countP_congr
  intro k hk
  rw [h k hk]

theorem Counts.congr {refs : Dict rho Int} {refOf' : kappa -> Option rho}
    (h : Counts refs index refOf) (hsame : forall k, k ∈ index -> refOf' k = refOf k) :
    Counts refs index refOf' := by
  intro ref
  rw [h ref, users_congr hsame]

variable [DecidableEq kappa]

theorem Dict.not_mem_erase (d : Dict kappa beta) (k : kappa) : ¬ k ∈ d.erase k :=
  fun h => ((d.mem_erase k k).mp h).left rfl

theorem users_set (index : Dict kappa beta) (refOf : kappa -> Option rho) (k : kappa)
    (b : beta) (ref : rho) :
    users (index.set k b) refOf ref =
      users (index.erase k) refOf ref + if refOf k = some ref then 1 else 0 := by
  have hkeys : (index.set k b).keys.Perm (k :: (index.erase k).keys) :=
    (index.entries_set_perm k b).map Prod.fst
  unfold users
  rw [hkeys.countP_eq, List.countP_cons]
  simp

theorem users_of_mem (hk : k ∈ index) (refOf : kappa -> Option rho) (ref : rho) :
    users index refOf ref =
      users (index.erase k) refOf ref + if refOf k = some ref then 1 else 0 := by
  rcases (index.mem_iff_exists_get? k).mp hk with ⟨b, hb⟩
  have hkeys : index.keys.Perm (k :: (index.erase k).keys) :=
    (Dict.entries_perm_of_get? hb).map Prod.fst
  unfold users
  rw [hkeys.countP_eq, List.countP_cons]
  simp

/-!
# Counters that follow the index
-/

variable {refs : Dict rho Int}

section

variable (h : Counts refs index refOf)

include h

theorem Counts.insert (hk : ¬ k ∈ index) (b : beta) :
    Counts (adjust refs (refOf k) 1) (index.set k b) refOf := by
  intro ref
  rw [users_set, index.erase_of_not_mem hk]
  cases huses : refOf k with
  | none =>
    exact h ref
  | some used =>
    rw [getD_adjust, h used, h ref]
    by_cases href : ref = used
    · rw [if_pos href, if_pos (congrArg some href.symm), href]
      omega
    · rw [if_neg href, if_neg (fun hsame => href (Option.some.inj hsame).symm)]
      rfl

theorem Counts.erase (hk : k ∈ index) :
    Counts (adjust refs (refOf k) (-1)) (index.erase k) refOf := by
  intro ref
  have hother := h ref
  rw [users_of_mem hk] at hother
  cases huses : refOf k with
  | none =>
    rw [huses, if_neg nofun] at hother
    exact hother
  | some used =>
    rw [huses] at hother
    rw [getD_adjust]
    by_cases href : ref = used
    · rw [if_pos (congrArg some href.symm)] at hother
      rw [if_pos href, ← href]
      omega
    · rw [if_neg (fun hsame => href (Option.some.inj hsame).symm)] at hother
      rw [if_neg href]
      exact hother

theorem Counts.rewrite (hk : k ∈ index) (b : beta) :
    Counts refs ((index.erase k).set k b) refOf := by
  intro ref
  rw [h ref, users_of_mem hk, users_set,
    (index.erase k).erase_of_not_mem (index.not_mem_erase k)]

end

end Foundation
end Membrane
