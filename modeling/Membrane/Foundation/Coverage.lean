import Mathlib.Data.List.Infix

/-!
# Coverage bitmaps

The positions of a sequence that are covered by inclusive spans.  The gaps are the
maximal runs of positions that are not covered.
-/

namespace Membrane
namespace Foundation

/-- The positions of an inclusive span become covered.  Positions outside of the
sequence are ignored. -/
def mark (start stop : Int) (coverage : List Bool) : List Bool :=
  coverage.mapIdx (fun i covered => covered || (start ≤ i && i ≤ stop))

def lastCovered (coverage : List Bool) : Nat -> Int
  | 0 => -1
  | i + 1 => if coverage[i]? = some true then i else lastCovered coverage i

/-- The rightmost covered position, or `-1`. -/
def coveredEnd (coverage : List Bool) : Int :=
  lastCovered coverage coverage.length

def gapsFrom : Nat -> Option Nat -> List Bool -> List (Nat × Nat)
  | _, none, [] => []
  | i, some start, [] => [(start, i - 1)]
  | i, none, true :: rest => gapsFrom (i + 1) none rest
  | i, some start, true :: rest => (start, i - 1) :: gapsFrom (i + 1) none rest
  | i, none, false :: rest => gapsFrom (i + 1) (some i) rest
  | i, some start, false :: rest => gapsFrom (i + 1) (some start) rest

def findGaps (coverage : List Bool) : List (Nat × Nat) :=
  gapsFrom 0 none coverage

/-!
# Marking
-/

@[simp] theorem length_mark (start stop : Int) (coverage : List Bool) :
    (mark start stop coverage).length = coverage.length := by
  simp [mark]

variable {coverage : List Bool} {length covered : Nat}

theorem covered_mark_iff {start stop : Int} {i : Nat} :
    (mark start stop coverage)[i]? = some true <->
      coverage[i]? = some true ∨
        (i < coverage.length ∧ start ≤ i ∧ i ≤ stop) := by
  unfold mark
  by_cases hi : i < coverage.length
  · simp [hi]
  · simp [hi]

theorem uncovered_iff {j : Nat} :
    coverage[j]? = some false <-> j < coverage.length ∧ ¬ coverage[j]? = some true := by
  by_cases hj : j < coverage.length
  · cases coverage[j] <;> simp [hj]
  · simp [hj]

def coveredTo (length covered : Nat) : List Bool :=
  List.replicate covered true ++ List.replicate (length - covered) false

/-!
# The covered end
-/

theorem coveredEnd_bounds (coverage : List Bool) :
    -1 ≤ coveredEnd coverage ∧
      forall j : Nat, coverage[j]? = some true -> j ≤ coveredEnd coverage := by
  have hlast : forall n, -1 ≤ lastCovered coverage n ∧
      forall j : Nat, j < n -> coverage[j]? = some true -> j ≤ lastCovered coverage n := by
    intro n
    induction n with
    | zero => exact ⟨Int.le_refl _, fun j hj => absurd hj (Nat.not_lt_zero j)⟩
    | succ n ih =>
      rw [lastCovered]
      split_ifs with hn
      · exact ⟨by omega, fun j hj _ => by omega⟩
      · refine ⟨ih.left, fun j hj hcovered => ih.right j ?_ hcovered⟩
        refine Nat.lt_of_le_of_ne (Nat.le_of_lt_succ hj) ?_
        rintro rfl
        exact hn hcovered
  refine ⟨(hlast _).left, fun j hj => (hlast _).right j ?_ hj⟩
  exact (List.getElem?_eq_some_iff.mp hj).choose

/-!
# Gaps
-/

theorem gapsFrom_covered (i covered : Nat) (rest : List Bool) :
    gapsFrom i none (List.replicate covered true ++ rest) =
      gapsFrom (i + covered) none rest := by
  induction covered generalizing i with
  | zero => rfl
  | succ covered ih =>
    rw [List.replicate_succ, List.cons_append, gapsFrom, ih]
    congr 1
    omega

theorem gapsFrom_uncovered (i start : Nat) (missing : Nat) :
    gapsFrom i (some start) (List.replicate missing false) = [(start, i + missing - 1)] := by
  induction missing generalizing i with
  | zero => rfl
  | succ missing ih =>
    rw [List.replicate_succ, gapsFrom, ih]
    congr 2
    omega

theorem findGaps_coveredTo (h : covered < length) :
    findGaps (coveredTo length covered) = [(covered, length - 1)] := by
  obtain ⟨missing, hmissing⟩ : exists missing, length - covered = missing + 1 :=
    ⟨length - covered - 1, by omega⟩
  rw [findGaps, coveredTo, gapsFrom_covered, hmissing, List.replicate_succ, gapsFrom,
    gapsFrom_uncovered]
  congr 2 <;> omega

/-- The maximal runs of positions that are not covered, from a start on and in order. -/
structure MaximalRuns (coverage : List Bool) (start : Nat) (gaps : List (Nat × Nat)) :
    Prop where
  nonempty : forall gap, gap ∈ gaps -> gap.1 ≤ gap.2
  apart : gaps.Pairwise (fun gap later => gap.2 + 1 < later.1)
  uncovered : forall j, (exists gap, gap ∈ gaps ∧ gap.1 ≤ j ∧ j ≤ gap.2) <->
    start ≤ j ∧ coverage[j]? = some false

theorem MaximalRuns.start_le {start : Nat} {gaps : List (Nat × Nat)} {gap : Nat × Nat}
    (h : MaximalRuns coverage start gaps) (hgap : gap ∈ gaps) : start ≤ gap.1 :=
  ((h.uncovered gap.1).mp ⟨gap, hgap, Nat.le_refl _, h.nonempty gap hgap⟩).left

/-- A run that has ended comes before the runs behind its end. -/
theorem MaximalRuns.cons {i start : Nat} {gaps : List (Nat × Nat)}
    (h : MaximalRuns coverage (i + 1) gaps) (hstart : start < i)
    (hrun : forall j, start ≤ j -> j < i -> coverage[j]? = some false)
    (hi : coverage[i]? ≠ some false) : MaximalRuns coverage start ((start, i - 1) :: gaps) := by
  refine ⟨?_, List.pairwise_cons.mpr ⟨fun gap hgap => ?_, h.apart⟩, fun j => ?_⟩
  · rw [List.forall_mem_cons]
    exact ⟨Nat.le_sub_one_of_lt hstart, h.nonempty⟩
  · have := h.start_le hgap
    simp only
    omega
  · rw [List.exists_mem_cons_iff, h.uncovered j]
    rcases Nat.lt_trichotomy j i with hlt | rfl | hgt
    · have hle : j ≤ i - 1 := by omega
      have hnot : ¬ i + 1 ≤ j := by omega
      simp only [hle, hnot, and_true, false_and, or_false]
      exact ⟨fun hj => ⟨hj, hrun j hj hlt⟩, And.left⟩
    · simp only [hi, and_false, or_false, iff_false]
      omega
    · have hnot : ¬ j ≤ i - 1 := by omega
      simp only [hnot, and_false, false_or]
      exact and_congr_left fun _ => by omega

theorem gapsFrom_maximalRuns {i start : Nat} {opened : Option Nat} {rest : List Bool}
    (hrest : coverage.drop i = rest)
    (hopened : opened = none ∧ start = i ∨ opened = some start ∧ start < i)
    (hrun : forall j, start ≤ j -> j < i -> coverage[j]? = some false) :
    MaximalRuns coverage start (gapsFrom i opened rest) := by
  induction rest generalizing i start opened with
  | nil =>
    have hend : forall j, i ≤ j -> coverage[j]? = none := fun j hj =>
      List.getElem?_eq_none ((List.drop_eq_nil_iff.mp hrest).trans hj)
    have hnil : forall k, i ≤ k -> MaximalRuns coverage k [] := fun k hk =>
      ⟨nofun, List.Pairwise.nil, fun j => iff_of_false nofun
        fun hj => by rw [hend j (hk.trans hj.left)] at hj; exact nomatch hj.right⟩
    rcases hopened with ⟨rfl, rfl⟩ | ⟨rfl, hstart⟩
    · exact hnil start (Nat.le_refl start)
    · exact (hnil (i + 1) (Nat.le_succ i)).cons hstart hrun
        (by rw [hend i (Nat.le_refl i)]; nofun)
  | cons covered rest ih =>
    have hi : coverage[i]? = some covered := by
      rw [← Nat.add_zero i, ← List.getElem?_drop, hrest]
      rfl
    have htail : coverage.drop (i + 1) = rest := by
      rw [← List.drop_drop, hrest]
      rfl
    cases covered with
    | false =>
      have hnext : forall j, start ≤ j -> j < i + 1 -> coverage[j]? = some false := by
        intro j hj hlt
        rcases Nat.lt_succ_iff_lt_or_eq.mp hlt with hlt | rfl
        · exact hrun j hj hlt
        · exact hi
      rcases hopened with ⟨rfl, rfl⟩ | ⟨rfl, hstart⟩
      · exact ih htail (Or.inr ⟨rfl, Nat.lt_succ_self start⟩) hnext
      · exact ih htail (Or.inr ⟨rfl, Nat.lt_succ_of_lt hstart⟩) hnext
    | true =>
      have hruns := ih htail (Or.inl ⟨rfl, rfl⟩)
        (fun j hj hlt => absurd hlt (Nat.not_lt.mpr hj))
      have hcovered : coverage[i]? ≠ some false := by
        rw [hi]
        decide
      rcases hopened with ⟨rfl, rfl⟩ | ⟨rfl, hstart⟩
      · refine ⟨hruns.nonempty, hruns.apart, fun j => (hruns.uncovered j).trans ?_⟩
        refine and_congr_left fun hj => ⟨Nat.le_of_succ_le, fun hle => ?_⟩
        refine Nat.lt_of_le_of_ne hle ?_
        rintro rfl
        exact hcovered hj
      · exact hruns.cons hstart hrun hcovered

theorem findGaps_maximalRuns (coverage : List Bool) :
    MaximalRuns coverage 0 (findGaps coverage) :=
  gapsFrom_maximalRuns rfl (Or.inl ⟨rfl, rfl⟩) (fun j _ hlt => absurd hlt (Nat.not_lt_zero j))

end Foundation
end Membrane
