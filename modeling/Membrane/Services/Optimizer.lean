import Mathlib.Tactic.Order
import Membrane.Foundation.Codec

/-!
# The search for a threshold

The best configuration of a grid of thresholds is searched in one pass, or chunk by chunk
with the winners of the chunks compared in order.
-/

namespace Membrane
namespace Services

structure Configuration (phi : Type) where
  threshold : Int
  nP : Int
  nD : Int
  lambdaMax : phi

variable {phi : Type} [LinearOrder phi]

def Configuration.better (best candidate : Configuration phi) : Configuration phi :=
  if best.lambdaMax < candidate.lambdaMax then candidate else best

def thresholdMin : Int := 1024

structure Evaluation (phi : Type) where
  evaluateConfiguration : Int -> Int -> Int -> List Int -> phi
  initial : phi

namespace Evaluation

variable (e : Evaluation phi) (lengths : List Int) (totalPdInstances : Int)

def start : Configuration phi :=
  { threshold := thresholdMin, nP := 1, nD := totalPdInstances - 1, lambdaMax := e.initial }

def configurations (threshold : Int) : List (Configuration phi) :=
  (List.range (totalPdInstances - 1).toNat).map fun (i : Nat) =>
    let nP : Int := i + 1
    let nD := totalPdInstances - nP
    { threshold := threshold
      nP := nP
      nD := nD
      lambdaMax := e.evaluateConfiguration threshold nP nD lengths }

def searchThresholds (thresholds : List Int) : Configuration phi :=
  thresholds.foldl
    (fun best threshold =>
      (e.configurations lengths totalPdInstances threshold).foldl .better best)
    (e.start totalPdInstances)

def chunks (thresholds : List Int) (size : Nat) : List (List Int) :=
  (List.range ((thresholds.length + size - 1) / size)).map fun k =>
    (thresholds.drop (k * size)).take size

/-- The search with the given number of workers, or with one for each processor.  Without
any result there is no first one. -/
def search (thresholds : List Int) (workers processCpuCount : Option Nat) :
    Option (Configuration phi) :=
  let available := (workers.filter (0 < ·)).getD ((processCpuCount.filter (0 < ·)).getD 1)
  let count := max 1 (min available thresholds.length)
  if count = 1 then some (e.searchThresholds lengths totalPdInstances thresholds)
  else
    let size := (-(-(thresholds.length : Int) / count)).toNat
    match (chunks thresholds size).map (e.searchThresholds lengths totalPdInstances) with
    | [] => none
    | first :: rest => some (rest.foldl .better first)

/-!
# Winners of chunks
-/

instance better_associative :
    Std.Associative (@Configuration.better phi _) where
  assoc a b c := by
    unfold Configuration.better
    split_ifs <;> first | rfl | order

theorem le_foldl_better (first : Configuration phi) (candidates : List (Configuration phi)) :
    first.lambdaMax ≤ (candidates.foldl .better first).lambdaMax := by
  induction candidates generalizing first with
  | nil => exact le_refl _
  | cons candidate rest ih =>
    refine le_trans ?_ (ih (first.better candidate))
    unfold Configuration.better
    split_ifs with hless
    · exact hless.le
    · exact le_refl _

/-- The second search begins with a value that is not greater than the first winner's. -/
theorem searchThresholds_append (first second : List Int) :
    e.searchThresholds lengths totalPdInstances (first ++ second) =
      (e.searchThresholds lengths totalPdInstances first).better
        (e.searchThresholds lengths totalPdInstances second) := by
  simp only [searchThresholds, ← List.foldl_flatMap, List.foldl_append]
  refine Eq.trans ?_ List.foldl_assoc
  congr 1
  exact (if_neg (not_lt.mpr (le_foldl_better _ _))).symm

theorem foldl_better_searchThresholds (first : List Int) (rest : List (List Int)) :
    (rest.map (e.searchThresholds lengths totalPdInstances)).foldl .better
        (e.searchThresholds lengths totalPdInstances first) =
      e.searchThresholds lengths totalPdInstances (first ++ rest.flatten) := by
  induction rest generalizing first with
  | nil =>
    rw [List.flatten_nil, List.append_nil]
    rfl
  | cons chunk rest ih =>
    rw [List.map_cons, List.foldl_cons, ← searchThresholds_append, ih, List.flatten_cons,
      List.append_assoc]

/-- Any number of workers finds the configuration and the value of the sequential search. -/
theorem search_eq_searchThresholds (thresholds : List Int)
    (workers processCpuCount : Option Nat) :
    e.search lengths totalPdInstances thresholds workers processCpuCount =
      some (e.searchThresholds lengths totalPdInstances thresholds) := by
  unfold search
  generalize (workers.filter (0 < ·)).getD _ = available
  simp only
  split_ifs with hone
  · rfl
  · have hneg := Int.ediv_neg_of_neg_of_pos (a := -(thresholds.length : Int))
      (b := (max 1 (min available thresholds.length) : Nat)) (by omega) (by omega)
    generalize (-(thresholds.length : Int) / _) = negated at hneg ⊢
    have hflatten : (chunks thresholds (-negated).toNat).flatten = thresholds :=
      Foundation.flatten_slices thresholds (by omega)
    cases hchunks : chunks thresholds (-negated).toNat with
    | nil =>
      rw [← hflatten, hchunks] at hone
      simp at hone
    | cons first rest =>
      rw [hchunks, List.flatten_cons] at hflatten
      rw [List.map_cons, ← hflatten, ← foldl_better_searchThresholds]

end Evaluation

end Services
end Membrane
