import Membrane.Services.Reconstructor

/-!
# What a reconstruction assembles

The first three steps take fragments from the index one by one, so a property of
the assembly that every taken fragment keeps holds of the result.  The last step
calls the adapter for gaps in their order.
-/

namespace Membrane
namespace Services

open Foundation Data Index

theorem mem_prefixLengths {maxPrefixAttempts : Int} {length i : Nat}
    (h : i ∈ prefixLengths maxPrefixAttempts length) : 0 < i ∧ i ≤ length := by
  rcases List.mem_filter.mp h with ⟨hmap, hpos⟩
  rcases List.mem_map.mp hmap with ⟨j, _, rfl⟩
  exact ⟨of_decide_eq_true hpos, Nat.sub_le _ _⟩

theorem prefixLengths_pairwise (maxPrefixAttempts : Int) (length : Nat) :
    (prefixLengths maxPrefixAttempts length).Pairwise (fun i j => j < i) := by
  unfold prefixLengths
  simp only
  generalize hstep :
    (if 0 < maxPrefixAttempts then max 1 (length / maxPrefixAttempts.toNat) else 1) = step
  have hone : 1 ≤ step := by
    rw [← hstep]
    split_ifs
    · exact Nat.le_max_left _ _
    · exact Nat.le_refl 1
  rw [List.pairwise_filter, List.pairwise_map]
  refine List.pairwise_lt_range.imp ?_
  intro i j hij hi hj
  have hmul : i * step < j * step := Nat.mul_lt_mul_of_pos_right hij hone
  have hpos : 0 < length - j * step := by simpa using hj
  omega

theorem findSome?_eq_some_iff_of_pairwise {beta : Type} {f : Nat -> Option beta}
    {lengths : List Nat} (h : lengths.Pairwise (fun i j => j < i)) (x : beta) :
    lengths.findSome? f = some x <->
      exists i, i ∈ lengths ∧ f i = some x ∧
        forall j, j ∈ lengths -> i < j -> f j = none := by
  induction lengths with
  | nil => simp
  | cons first rest ih =>
    have hrest := ih (List.Pairwise.of_cons h)
    have hfirst : forall j, j ∈ rest -> j < first :=
      fun j hj => List.rel_of_pairwise_cons h hj
    rw [List.findSome?_cons]
    cases hf : f first with
    | some y =>
      constructor
      · intro hy
        refine ⟨first, List.mem_cons_self, by rw [hf]; exact hy, ?_⟩
        intro j hj hlt
        rcases List.mem_cons.mp hj with rfl | hj
        · exact absurd hlt (Nat.lt_irrefl _)
        · exact absurd hlt (Nat.lt_asymm (hfirst j hj))
      · rintro ⟨i, hi, hfi, hlater⟩
        rcases List.mem_cons.mp hi with rfl | hi
        · rw [hf] at hfi
          exact hfi
        · have hnone := hlater first List.mem_cons_self (hfirst i hi)
          rw [hf] at hnone
          cases hnone
    | none =>
      rw [hrest]
      constructor
      · rintro ⟨i, hi, hfi, hlater⟩
        refine ⟨i, List.mem_cons_of_mem first hi, hfi, ?_⟩
        intro j hj hlt
        rcases List.mem_cons.mp hj with rfl | hj
        · exact hf
        · exact hlater j hj hlt
      · rintro ⟨i, hi, hfi, hlater⟩
        rcases List.mem_cons.mp hi with rfl | hi
        · rw [hf] at hfi
          cases hfi
        · exact ⟨i, hi, hfi, fun j hj => hlater j (List.mem_cons_of_mem first hj)⟩

namespace Reconstructor

variable {owner error : Type} {r : Reconstructor owner error} {promptTokens : List Int}
  {modelId : String}

/-!
# Coverage
-/

structure Backed (promptTokens : List Int) (a : Assembly) : Prop where
  length : a.coverage.length = promptTokens.length
  covered : forall j, a.coverage[j]? = some true <->
    j < promptTokens.length ∧ exists f, f ∈ a.assembled ∧
      f.identity.tokenSpan.1 ≤ j ∧ j ≤ f.identity.tokenSpan.2

theorem backed_empty (promptTokens : List Int) :
    Backed promptTokens (Assembly.empty promptTokens.length) where
  length := List.length_replicate
  covered j := by
    show (List.replicate promptTokens.length false)[j]? = some true <->
      _ ∧ exists f, f ∈ [] ∧ _
    rw [List.getElem?_replicate]
    split_ifs <;> simp

theorem Backed.cover {a : Assembly} (h : Backed promptTokens a) (f : Fragment) :
    Backed promptTokens (a.cover f) where
  length := by
    show (mark _ _ _).length = _
    rw [length_mark, h.length]
  covered j := by
    show (mark _ _ _)[j]? = some true <-> _ ∧ exists g, g ∈ a.assembled ++ [f] ∧ _
    rw [covered_mark_iff, h.covered j, h.length]
    simp only [List.mem_append, List.mem_singleton, or_and_right, exists_or, exists_eq_left]
    rw [and_or_left]

/-!
# The longest match
-/

def Hit (r : Reconstructor owner error) (modelId h : String) (f : Fragment) : Prop :=
  exists entry, r.indexSystem.exactLookup h = some entry ∧ entry.fragment = f ∧
    f.identity.modelId = modelId ∧ f.identity.tokenSpan.1 = 0 ∧ r.sees f = true

theorem prefixHit_cases (i : Nat) (best : Option Fragment) (h : String) :
    r.prefixHit modelId i best h = best ∨
      exists f, r.prefixHit modelId i best h = some f ∧ r.Hit modelId h f := by
  unfold prefixHit
  cases hentry : r.indexSystem.exactLookup h with
  | none => exact Or.inl rfl
  | some entry =>
    simp only
    split_ifs with hgood
    · exact Or.inr ⟨_, rfl, entry, hentry, rfl, hgood.left, hgood.right.left,
        hgood.right.right.left⟩
    · exact Or.inl rfl

theorem foldl_prefixHit_cases (r : Reconstructor owner error) (modelId : String) (i : Nat)
    (hashes : List String) (best : Option Fragment) :
    hashes.foldl (r.prefixHit modelId i) best = best ∨
      exists h f, h ∈ hashes ∧ hashes.foldl (r.prefixHit modelId i) best = some f ∧
        r.Hit modelId h f := by
  induction hashes generalizing best with
  | nil => exact Or.inl rfl
  | cons h rest ih =>
    rw [List.foldl_cons]
    rcases ih (r.prefixHit modelId i best h) with hsame | ⟨j, f, hj, hfold, hhit⟩
    · rw [hsame]
      rcases prefixHit_cases i best h with hbest | ⟨f, hf, hhit⟩
      · exact Or.inl hbest
      · exact Or.inr ⟨h, f, List.mem_cons_self, hf, hhit⟩
    · exact Or.inr ⟨j, f, List.mem_cons_of_mem h hj, hfold, hhit⟩

variable [TokenHash]

variable {f : Fragment}

theorem longestMatch_eq_some (h : r.longestMatch promptTokens modelId = some f) :
    exists i hash, i ∈ prefixLengths r.config.maxPrefixAttempts promptTokens.length ∧
      hash ∈ tokenHashes (promptTokens.take i) ∧ r.Hit modelId hash f := by
  rcases List.exists_of_findSome?_eq_some h with ⟨i, hi, hfold⟩
  rcases foldl_prefixHit_cases r modelId i (tokenHashes (promptTokens.take i)) none with
    hnone | ⟨hash, g, hhash, hfound, hhit⟩
  · rw [hnone] at hfold
    cases hfold
  · rw [hfound] at hfold
    cases hfold
    exact ⟨i, hash, hi, hhash, hhit⟩

def exactOffer (r : Reconstructor owner error) (promptTokens : List Int) (modelId : String)
    (i : Nat) : Option Fragment :=
  if i ∈ prefixLengths r.config.maxPrefixAttempts promptTokens.length then
    (tokenHashes (promptTokens.take i)).foldl (r.prefixHit modelId i) none
  else none

theorem longestMatch_eq_some_iff (f : Fragment) :
    r.longestMatch promptTokens modelId = some f <->
      exists i, r.exactOffer promptTokens modelId i = some f ∧
        forall j, i < j -> r.exactOffer promptTokens modelId j = none := by
  rw [longestMatch, findSome?_eq_some_iff_of_pairwise (prefixLengths_pairwise _ _)]
  unfold exactOffer
  constructor
  · rintro ⟨i, hi, hfi, hlater⟩
    refine ⟨i, by rw [if_pos hi]; exact hfi, ?_⟩
    intro j hlt
    split_ifs with hj
    · exact hlater j hj hlt
    · rfl
  · rintro ⟨i, hfi, hlater⟩
    split_ifs at hfi with hi
    refine ⟨i, hi, hfi, ?_⟩
    intro j hj hlt
    have hnone := hlater j hlt
    rw [if_pos hj] at hnone
    exact hnone

/-!
# Accepted fragments
-/

theorem accepts_iff (hverify : r.config.verifyTokens = true) (f : Fragment) :
    r.accepts promptTokens modelId f = true <->
      f.identity.modelId = modelId ∧ r.sees f = true ∧
        f.identity.tokenSpan.2 < promptTokens.length ∧
        f.payloadHash ∈ tokenHashes
          ((promptTokens.take (f.identity.tokenSpan.2 + 1).toNat).drop
            f.identity.tokenSpan.1.toNat) := by
  have hspan := f.identity.tokenSpan_valid
  unfold accepts
  by_cases hmodel : f.identity.modelId = modelId
  · rw [if_neg (not_not.mpr hmodel)]
    cases hsees : r.sees f with
    | false => simp
    | true =>
      rw [if_neg Bool.true_eq_false.mp, if_neg (by rw [hverify]; exact Bool.true_eq_false.mp)]
      simp only
      by_cases hstop : f.identity.tokenSpan.2 < promptTokens.length
      · rw [if_neg (by have := hspan.left; have := hspan.right.right; omega),
          decide_eq_true_iff]
        exact ⟨fun h => ⟨hmodel, trivial, hstop, h⟩, fun h => h.right.right.right⟩
      · rw [if_pos (Or.inr (Or.inl (not_lt.mp hstop)))]
        exact ⟨fun h => absurd h Bool.false_ne_true,
          fun h => absurd h.right.right.left hstop⟩
  · rw [if_pos hmodel]
    exact ⟨fun h => absurd h Bool.false_ne_true, fun h => absurd h.left hmodel⟩

theorem findNextAdjacent_spec {currentEnd : Int}
    (h : r.findNextAdjacent promptTokens modelId currentEnd = some f) :
    f ∈ r.indexSystem.positionalAdjacent currentEnd r.config.maxGapTokens ∧
      r.accepts promptTokens modelId f = true ∧ currentEnd < f.identity.tokenSpan.1 := by
  have hgood := List.find?_some h
  simp only [Bool.and_eq_true, decide_eq_true_eq] at hgood
  exact ⟨List.mem_of_find?_eq_some h, hgood.left.left.left, hgood.left.left.right⟩

/-!
# Assembling
-/

def Takes (r : Reconstructor owner error) (promptTokens : List Int) (modelId : String)
    (f : Fragment) : Prop :=
  f ∈ r.indexSystem.semantic.fragments ∧
    (r.accepts promptTokens modelId f = true ∨
      r.longestMatch promptTokens modelId = some f)

/-- The ways in which the index offers a fragment for a prompt. -/
inductive Offered (r : Reconstructor owner error) (promptTokens : List Int)
    (modelId : String) (f : Fragment) : Prop where
  | exactEntry (i : Nat) (h : r.exactOffer promptTokens modelId i = some f)
  | adjacent (position : Int)
      (hmem : f ∈ r.indexSystem.positionalAdjacent position r.config.maxGapTokens)
      (haccepts : r.accepts promptTokens modelId f = true)
  | similar (hmem : f ∈ r.indexSystem.semanticLookup 3)
      (haccepts : r.accepts promptTokens modelId f = true)

theorem offered_of_longestMatch (h : r.longestMatch promptTokens modelId = some f) :
    r.Offered promptTokens modelId f := by
  rcases (longestMatch_eq_some_iff f).mp h with ⟨i, hi, _⟩
  exact Offered.exactEntry i hi

theorem firstStep_cases (r : Reconstructor owner error) (promptTokens : List Int)
    (modelId : String) :
    r.firstStep promptTokens modelId = Assembly.empty promptTokens.length ∨
      exists f, r.longestMatch promptTokens modelId = some f ∧
        r.firstStep promptTokens modelId = (Assembly.empty promptTokens.length).cover f := by
  unfold firstStep
  cases hlongest : r.longestMatch promptTokens modelId with
  | none => exact Or.inl rfl
  | some f => exact Or.inr ⟨f, rfl, rfl⟩

theorem extend_induction (holds : Assembly -> Prop)
    (hstep : forall a f position, holds a ->
      f ∈ r.indexSystem.positionalAdjacent position r.config.maxGapTokens ->
      r.accepts promptTokens modelId f = true -> holds (a.cover f))
    (rounds : Nat) {a : Assembly} (ha : holds a) :
    holds (r.extend promptTokens modelId rounds a) := by
  induction rounds generalizing a with
  | zero => exact ha
  | succ rounds ih =>
    rw [extend]
    split_ifs
    · cases hnext : r.findNextAdjacent promptTokens modelId (coveredEnd a.coverage) with
      | none => exact ha
      | some f =>
        have hspec := findNextAdjacent_spec hnext
        exact ih (hstep a f _ ha hspec.left hspec.right.left)
    · exact ha

theorem fillGap_cases (r : Reconstructor owner error) (promptTokens : List Int)
    (modelId : String) (a : Assembly) (gap : Nat × Nat) :
    r.fillGap promptTokens modelId a gap = a ∨
      exists f, r.fillGap promptTokens modelId a gap = a.cover f ∧
        f ∈ r.indexSystem.semanticLookup 3 ∧ r.accepts promptTokens modelId f = true := by
  unfold fillGap
  cases hfind : (r.indexSystem.semanticLookup 3).find? _ with
  | none => exact Or.inl rfl
  | some f =>
    have hgood := List.find?_some hfind
    simp only [fits, Bool.and_eq_true] at hgood
    exact Or.inr ⟨f, rfl, List.mem_of_find?_eq_some hfind, hgood.right⟩

theorem assemble_induction (holds : Assembly -> Prop)
    (hfirst : holds (r.firstStep promptTokens modelId))
    (hstep : forall a f, holds a -> r.Offered promptTokens modelId f ->
      r.accepts promptTokens modelId f = true -> holds (a.cover f)) :
    holds (r.assemble promptTokens modelId) := by
  unfold assemble
  have hextended : holds (r.extend promptTokens modelId promptTokens.length
      (r.firstStep promptTokens modelId)) :=
    extend_induction holds
      (fun a f position ha hmem haccepts =>
        hstep a f ha (Offered.adjacent position hmem haccepts) haccepts)
      promptTokens.length hfirst
  simp only
  generalize findGaps _ = gaps
  revert hextended
  generalize r.extend promptTokens modelId promptTokens.length _ = a
  intro ha
  induction gaps generalizing a with
  | nil => exact ha
  | cons gap rest ih =>
    apply ih
    rcases fillGap_cases r promptTokens modelId a gap with hsame | ⟨f, hcover, hmem, haccepts⟩
    · rw [hsame]
      exact ha
    · rw [hcover]
      exact hstep a f ha (Offered.similar hmem haccepts) haccepts

/-- Every fragment of an assembly is the longest match or was accepted when it was offered. -/
theorem forall_mem_assembled (holds : Fragment -> Prop)
    (hfirst : forall f, r.longestMatch promptTokens modelId = some f -> holds f)
    (hstep : forall f, r.Offered promptTokens modelId f ->
      r.accepts promptTokens modelId f = true -> holds f) :
    forall f, f ∈ (r.assemble promptTokens modelId).assembled -> holds f := by
  apply assemble_induction (fun a => forall f, f ∈ a.assembled -> holds f)
  · intro f hf
    rcases firstStep_cases r promptTokens modelId with hempty | ⟨g, hlongest, hone⟩
    · rw [hempty] at hf
      exact absurd hf List.not_mem_nil
    · rw [hone] at hf
      exact hfirst f (List.mem_singleton.mp hf ▸ hlongest)
  · intro a f ha hoffered haccepts g hg
    rcases List.mem_append.mp hg with hg | hg
    · exact ha g hg
    · rw [List.mem_singleton.mp hg]
      exact hstep f hoffered haccepts

theorem Offered.mem_fragments (h : r.Offered promptTokens modelId f)
    (hindex : r.indexSystem.WellBuilt) : f ∈ r.indexSystem.semantic.fragments := by
  cases h with
  | exactEntry i h =>
    unfold exactOffer at h
    split_ifs at h
    rcases foldl_prefixHit_cases r modelId i (tokenHashes (promptTokens.take i)) none with
      hnone | ⟨hash, g, _, hfound, entry, hentry, rfl, _⟩
    · rw [hnone] at h
      cases h
    · rw [hfound] at h
      cases h
      exact (hindex.entry hash entry hentry).left
  | adjacent position hmem _ => exact (hindex.mem_positionalAdjacent.mp hmem).left
  | similar hmem _ => exact IndexSystem.mem_semanticLookup hmem

theorem firstStep_backed : Backed promptTokens (r.firstStep promptTokens modelId) := by
  rcases firstStep_cases r promptTokens modelId with hfirst | ⟨f, _, hfirst⟩
  · rw [hfirst]
    exact backed_empty promptTokens
  · rw [hfirst]
    exact (backed_empty promptTokens).cover f

theorem assemble_backed (r : Reconstructor owner error) (promptTokens : List Int)
    (modelId : String) : Backed promptTokens (r.assemble promptTokens modelId) := by
  apply assemble_induction (Backed promptTokens)
  · exact firstStep_backed
  · intro a f ha _ _
    exact ha.cover f

/-!
# The extension loop
-/

section Rounds

variable (r : Reconstructor owner error) (promptTokens : List Int) (modelId : String)

def nextRound (a : Assembly) : Option Fragment :=
  if coveredEnd a.coverage < (promptTokens.length : Int) - 1 then
    r.findNextAdjacent promptTokens modelId (coveredEnd a.coverage)
  else none

def afterRounds (rounds : Nat) : Assembly :=
  r.extend promptTokens modelId rounds (r.firstStep promptTokens modelId)

variable {r promptTokens modelId}

theorem coveredEnd_lt_cover {a : Assembly} (ha : Backed promptTokens a)
    (hf : r.nextRound promptTokens modelId a = some f) :
    coveredEnd a.coverage < coveredEnd (a.cover f).coverage := by
  unfold nextRound at hf
  split_ifs at hf
  have hgood := List.find?_some hf
  simp only [Bool.and_eq_true, decide_eq_true_eq] at hgood
  obtain ⟨_, _, hspan⟩ := f.identity.tokenSpan_valid
  have hend := (coveredEnd_bounds _).right _
    (((ha.cover f).covered f.identity.tokenSpan.2.toNat).mpr
      ⟨by omega, f, List.mem_append_right _ List.mem_cons_self, by omega, by omega⟩)
  omega

theorem extend_stops (rounds : Nat) {a : Assembly} (ha : Backed promptTokens a) :
    r.nextRound promptTokens modelId (r.extend promptTokens modelId rounds a) = none ∨
      coveredEnd a.coverage + rounds ≤
        coveredEnd (r.extend promptTokens modelId rounds a).coverage := by
  induction rounds generalizing a with
  | zero => exact Or.inr (Int.add_zero _).le
  | succ rounds ih =>
    have hround : r.extend promptTokens modelId (rounds + 1) a =
        (r.nextRound promptTokens modelId a).elim a
          (fun f => r.extend promptTokens modelId rounds (a.cover f)) := by
      rw [extend, nextRound]
      split_ifs
      · cases r.findNextAdjacent promptTokens modelId (coveredEnd a.coverage) <;> rfl
      · rfl
    rw [hround]
    cases hf : r.nextRound promptTokens modelId a with
    | none => exact Or.inl hf
    | some f =>
      have hlt := coveredEnd_lt_cover ha hf
      rw [Option.elim_some]
      refine (ih (ha.cover f)).imp_right fun hle => ?_
      push_cast
      omega

variable (r promptTokens modelId)

/-- Every round of the extension loop moves the covered end forward, no round follows after
as many rounds as the prompt has tokens, and the gaps of a bitmap are its maximal runs. -/
theorem extension_stops_and_gaps_exact :
    (forall rounds f,
      r.nextRound promptTokens modelId (r.afterRounds promptTokens modelId rounds) = some f ->
        coveredEnd (r.afterRounds promptTokens modelId rounds).coverage <
          coveredEnd ((r.afterRounds promptTokens modelId rounds).cover f).coverage) ∧
      r.nextRound promptTokens modelId
        (r.afterRounds promptTokens modelId promptTokens.length) = none ∧
      forall coverage, MaximalRuns coverage 0 (findGaps coverage) := by
  have hfirst : Backed promptTokens (r.firstStep promptTokens modelId) := firstStep_backed
  refine ⟨fun rounds f => coveredEnd_lt_cover ?_, ?_, findGaps_maximalRuns⟩
  · exact extend_induction _ (fun a f _ ha _ _ => ha.cover f) rounds hfirst
  · unfold afterRounds
    refine (extend_stops promptTokens.length hfirst).elim id fun hle => ?_
    have hstart := (coveredEnd_bounds (r.firstStep promptTokens modelId).coverage).left
    exact if_neg (by omega)

end Rounds

end Reconstructor

/-!
# The last step
-/

namespace Reconstructor

variable {owner error : Type} {r : Reconstructor owner error} {promptTokens : List Int}
  {modelId : String}

theorem foldl_prefillGap_idle
    (hidle : forall tokens model, r.prefill tokens model = .ok [])
    (promptTokens : List Int) (modelId : String) (gaps : List (Nat × Nat))
    {s : Filling owner error} (hs : s.failure = none) :
    (gaps.foldl (r.prefillGap promptTokens modelId) s).toAssembly = s.toAssembly ∧
      (gaps.foldl (r.prefillGap promptTokens modelId) s).failure = none ∧
      (gaps.foldl (r.prefillGap promptTokens modelId) s).state = s.state := by
  induction gaps generalizing s with
  | nil => exact ⟨rfl, hs, rfl⟩
  | cons gap rest ih =>
    have hone : (r.prefillGap promptTokens modelId s gap).toAssembly = s.toAssembly ∧
        (r.prefillGap promptTokens modelId s gap).failure = none ∧
        (r.prefillGap promptTokens modelId s gap).state = s.state := by
      unfold prefillGap
      simp only [hs, hidle, Option.isSome_none, Bool.false_eq_true, if_false]
      split_ifs
      · exact ⟨rfl, rfl, rfl⟩
      · exact ⟨rfl, rfl, rfl⟩
    rw [← hone.left, ← hone.right.right]
    exact ih hone.right.left

variable [TokenHash]

theorem rebuildContext_idle (hidle : forall tokens model, r.prefill tokens model = .ok [])
    (promptTokens : List Int) (modelId : String) (state : owner) :
    exists ratio missing invoked,
      (r.rebuildContext promptTokens modelId state).result = .ok
        { fragments := deduplicateAndSort (r.assemble promptTokens modelId).assembled
          coverageRatio := ratio
          missingSegments := missing
          prefillInvoked := invoked } := by
  have hfold := foldl_prefillGap_idle hidle promptTokens modelId
    (findGaps (r.assemble promptTokens modelId).coverage)
    (s := (r.assemble promptTokens modelId).unfilled r.indexSystem state) rfl
  unfold rebuildContext Filling.result
  rw [hfold.right.left]
  rw [hfold.left]
  exact ⟨_, _, _, rfl⟩

end Reconstructor

end Services
end Membrane
