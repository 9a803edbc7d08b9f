import Membrane.Services.Reuse

/-!
# Missing segments

The last step reports a gap that is left to the decoder, and a gap for which the adapter
computed fragments.  A gap that goes to the adapter in vain is not reported, so that its
positions are neither covered nor missing unless fragments of other gaps reach them.
-/

namespace Membrane
namespace Services

open Foundation Data Index

namespace Reconstructor

variable {owner error : Type} (r : Reconstructor owner error) (promptTokens : List Int)
  (modelId : String)

def Long (gap : Nat × Nat) : Prop :=
  r.config.maxGapTokens < ((promptTokens.take (gap.2 + 1)).drop gap.1).length

instance (gap : Nat × Nat) : Decidable (r.Long promptTokens gap) :=
  inferInstanceAs (Decidable (_ < _))

def prefilledFor (gap : Nat × Nat) : List Fragment :=
  if r.Long promptTokens gap then
    match r.prefill ((promptTokens.take (gap.2 + 1)).drop gap.1) modelId with
    | .ok computed => computed.map (fun f => f.rebase gap.1)
    | .error _ => []
  else []

/-!
# One gap
-/

variable {r promptTokens modelId}

structure GapFilled (r : Reconstructor owner error) (promptTokens : List Int)
    (modelId : String) (gaps : List (Nat × Nat)) (s after : Filling owner error) : Prop where
  failure : s.failure = none
  length : after.coverage.length = s.coverage.length
  missing : forall gap, gap ∈ after.missing <-> gap ∈ s.missing ∨
    gap ∈ gaps ∧ (r.Long promptTokens gap -> r.prefilledFor promptTokens modelId gap ≠ [])
  covered : forall j, after.coverage[j]? = some true <-> s.coverage[j]? = some true ∨
    j < s.coverage.length ∧ exists gap, gap ∈ gaps ∧
      Spanned (r.prefilledFor promptTokens modelId gap) j

theorem length_foldl_cover (fragments : List Fragment) (a : Assembly) :
    (fragments.foldl Assembly.cover a).coverage.length = a.coverage.length := by
  induction fragments generalizing a with
  | nil => rfl
  | cons f rest ih =>
    rw [List.foldl_cons, ih]
    exact length_mark _ _ _

theorem missing_takePrefilled (gapStart : Nat) (s : Filling owner error) (f : Fragment) :
    (r.takePrefilled gapStart s f).missing = s.missing := by
  unfold takePrefilled
  by_cases hfailure : s.failure.isSome
  · rw [if_pos hfailure]
  · rw [if_neg hfailure]
    simp only
    split <;> rfl

theorem missing_foldl_takePrefilled (gapStart : Nat) (computed : List Fragment)
    (s : Filling owner error) :
    (computed.foldl (r.takePrefilled gapStart) s).missing = s.missing := by
  induction computed generalizing s with
  | nil => rfl
  | cons f rest ih => rw [List.foldl_cons, ih, missing_takePrefilled]

theorem not_spanned_nil (j : Nat) : ¬ Spanned [] j := by
  rintro ⟨f, hf, _⟩
  cases hf

theorem gapFilled_prefillGap {s : Filling owner error} {gap : Nat × Nat}
    (h : (r.prefillGap promptTokens modelId s gap).failure = none) :
    GapFilled r promptTokens modelId [gap] s (r.prefillGap promptTokens modelId s gap) := by
  unfold prefillGap at h ⊢
  by_cases hfailure : s.failure.isSome
  · rw [if_pos hfailure] at h
    rw [h] at hfailure
    cases hfailure
  have hnone := Option.not_isSome_iff_eq_none.mp hfailure
  rw [if_neg hfailure] at h ⊢
  simp only at h ⊢
  by_cases hlong : r.Long promptTokens gap
  · have hprefilled : r.prefilledFor promptTokens modelId gap =
        match r.prefill ((promptTokens.take (gap.2 + 1)).drop gap.1) modelId with
        | .ok computed => computed.map (fun f => f.rebase gap.1)
        | .error _ => [] := if_pos hlong
    have hlt : r.config.maxGapTokens <
        ((promptTokens.take (gap.2 + 1)).drop gap.1).length := hlong
    rw [if_pos hlt] at h ⊢
    cases hanswer : r.prefill ((promptTokens.take (gap.2 + 1)).drop gap.1) modelId with
    | error e =>
      rw [hanswer] at h
      cases h
    | ok computed =>
      rw [hanswer] at h hprefilled
      cases computed with
      | nil =>
        refine ⟨hnone, rfl, ?_, ?_⟩
        · intro other
          simp only [List.mem_singleton]
          constructor
          · exact Or.inl
          · rintro (hold | ⟨rfl, hreported⟩)
            · exact hold
            · exact absurd hprefilled (hreported hlong)
        · intro j
          simp only [List.mem_singleton, exists_eq_left, hprefilled, List.map_nil,
            not_spanned_nil, and_false, or_false]
      | cons f rest =>
        simp only at h ⊢
        split at h
        next hfailed =>
          rw [h] at hfailed
          cases hfailed
        next hfine =>
          have hdone := Option.not_isSome_iff_eq_none.mp hfine
          obtain ⟨_, hassembly⟩ := foldl_takePrefilled_of_ok gap.1 (f :: rest) hdone
          rw [if_neg hfine]
          refine ⟨hnone, ?_, ?_, ?_⟩
          · rw [hassembly, length_foldl_cover]
          · intro other
            rw [missing_foldl_takePrefilled, List.mem_append]
            refine or_congr_right ?_
            constructor
            · intro hother
              refine ⟨hother, fun _ => ?_⟩
              rw [List.mem_singleton.mp hother, hprefilled]
              exact List.cons_ne_nil _ _
            · exact fun hother => hother.left
          · intro j
            rw [hassembly, (foldl_cover _ _).right j]
            simp only [List.mem_singleton, exists_eq_left, hprefilled]
  · have hprefilled : r.prefilledFor promptTokens modelId gap = [] := if_neg hlong
    have hge : ¬ r.config.maxGapTokens <
        ((promptTokens.take (gap.2 + 1)).drop gap.1).length := hlong
    rw [if_neg hge]
    refine ⟨hnone, rfl, ?_, ?_⟩
    · intro other
      rw [List.mem_append]
      refine or_congr_right ?_
      constructor
      · intro hother
        refine ⟨hother, ?_⟩
        rw [List.mem_singleton.mp hother]
        exact fun hbad => absurd hbad hlong
      · exact fun hother => hother.left
    · intro j
      simp only [List.mem_singleton, exists_eq_left, hprefilled, not_spanned_nil, and_false,
        or_false]

/-!
# All gaps
-/

theorem gapFilled_foldl {gaps : List (Nat × Nat)} {s : Filling owner error}
    (h : (gaps.foldl (r.prefillGap promptTokens modelId) s).failure = none) :
    GapFilled r promptTokens modelId gaps s
      (gaps.foldl (r.prefillGap promptTokens modelId) s) := by
  induction gaps generalizing s with
  | nil => exact ⟨h, rfl, fun gap => by simp, fun j => by simp⟩
  | cons first rest ih =>
    have hrest := ih h
    have hfirst := gapFilled_prefillGap hrest.failure
    refine ⟨hfirst.failure, hrest.length.trans hfirst.length, ?_, ?_⟩
    · intro gap
      rw [List.foldl_cons, hrest.missing gap, hfirst.missing gap, List.mem_singleton,
        List.mem_cons]
      tauto
    · intro j
      rw [List.foldl_cons, hrest.covered j, hfirst.covered j, hfirst.length]
      simp only [exists_eq_left, List.mem_cons, or_and_right, exists_or]
      tauto

section Completeness

variable [TokenHash]

/-- Every position that is not covered lies in a segment that is reported as missing. -/
def MissingComplete (s : Filling owner error) : Prop :=
  forall j, s.coverage[j]? = some false ->
    exists gap, gap ∈ s.missing ∧ gap.1 ≤ j ∧ j ≤ gap.2

def Answered (r : Reconstructor owner error) (promptTokens : List Int) (modelId : String) :
    Prop :=
  forall j, (r.assemble promptTokens modelId).coverage[j]? = some false ->
    exists gap, gap ∈ findGaps (r.assemble promptTokens modelId).coverage ∧
      ((gap.1 ≤ j ∧ j ≤ gap.2 ∧
          (r.Long promptTokens gap -> r.prefilledFor promptTokens modelId gap ≠ [])) ∨
        Spanned (r.prefilledFor promptTokens modelId gap) j)

/-- A context that is rebuilt reports all that it misses exactly when every open position is
answered. -/
theorem missingComplete_iff {state : owner}
    (h : (r.rebuildContext promptTokens modelId state).failure = none) :
    MissingComplete (r.rebuildContext promptTokens modelId state) <->
      r.Answered promptTokens modelId := by
  have hfilled := gapFilled_foldl h
  have hmissing : forall gap,
      gap ∈ (r.rebuildContext promptTokens modelId state).missing <-> _ :=
    hfilled.missing
  have hcovered : forall j, (r.rebuildContext promptTokens modelId state).coverage[j]? =
      some true <-> _ := hfilled.covered
  have hlength : (r.rebuildContext promptTokens modelId state).coverage.length =
      (r.assemble promptTokens modelId).coverage.length := hfilled.length
  unfold MissingComplete Answered
  refine forall_congr' fun j => ?_
  rw [uncovered_iff, uncovered_iff, hcovered j, hlength]
  simp only [hmissing]
  constructor
  · intro hreported hopen
    by_cases hspanned : exists gap,
        gap ∈ findGaps (r.assemble promptTokens modelId).coverage ∧
          Spanned (r.prefilledFor promptTokens modelId gap) j
    · obtain ⟨gap, hgap, hspan⟩ := hspanned
      exact ⟨gap, hgap, Or.inr hspan⟩
    · obtain ⟨gap, hgap, hstart, hstop⟩ := hreported ⟨hopen.left, fun hor =>
        hor.elim hopen.right (fun hother => hspanned hother.right)⟩
      obtain ⟨hmem, hanswered⟩ := hgap.resolve_left List.not_mem_nil
      exact ⟨gap, hmem, Or.inl ⟨hstart, hstop, hanswered⟩⟩
  · intro hanswered hopen
    obtain ⟨gap, hgap, hcase⟩ := hanswered ⟨hopen.left, fun hold => hopen.right (Or.inl hold)⟩
    rcases hcase with ⟨hstart, hstop, hreported⟩ | hspan
    · exact ⟨gap, Or.inr ⟨hgap, hreported⟩, hstart, hstop⟩
    · exact absurd (Or.inr ⟨hopen.left, gap, hgap, hspan⟩) hopen.right

end Completeness

section Sample

attribute [local instance] TokenHash.letters

/-- An adapter that computes nothing leaves a gap that is not reported. -/
theorem missing_incomplete :
    ((overNothing []).rebuildContext [0, 1] "model" ()).failure = none ∧
      ((overNothing []).rebuildContext [0, 1] "model" ()).coverage = [false, false] ∧
      ((overNothing []).rebuildContext [0, 1] "model" ()).missing = [] := by
  decide +kernel

theorem missingComplete_iff_first :
    MissingComplete ((overNothing [firstWindow]).rebuildContext [0, 1] "model" ()) <->
      (overNothing [firstWindow]).Answered [0, 1] "model" :=
  missingComplete_iff rfl

end Sample

end Reconstructor

end Services
end Membrane
