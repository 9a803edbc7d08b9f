import Membrane.Serving.IndexMirror
import Membrane.Services.Lookups

/-!
# What a reconstruction reuses

Fragments reach a result from the exact index, from the interval tree, from the
semantic index and from the adapter.  The interval tree and the semantic index are
asked with a check of the tokens; the exact index is trusted with the span it has
recorded.  The result keeps one fragment for each hash.
-/

namespace Membrane
namespace Services

open Foundation Data Index

/-!
# Tilings
-/

/-- Consecutive spans from one position up to another. -/
inductive Tiles : Int -> List Fragment -> Int -> Prop where
  | nil (a : Int) : Tiles a [] a
  | cons {a b : Int} {f : Fragment} {rest : List Fragment} :
      f.identity.tokenSpan.1 = a -> Tiles (f.identity.tokenSpan.2 + 1) rest b ->
        Tiles a (f :: rest) b

namespace Tiles

variable {a b : Int} {tiles : List Fragment}

section

variable (h : Tiles a tiles b)

include h

theorem le : a ≤ b := by
  induction h with
  | nil a => exact le_refl a
  | @cons a b f rest hstart _ ih =>
    have := f.identity.tokenSpan_valid.right.right
    omega

theorem bounds {f : Fragment} (hf : f ∈ tiles) :
    a ≤ f.identity.tokenSpan.1 ∧ f.identity.tokenSpan.2 < b := by
  induction h with
  | nil a => cases hf
  | @cons a b g rest hstart hrest ih =>
    have hspan := g.identity.tokenSpan_valid.right.right
    have hle := hrest.le
    rcases List.mem_cons.mp hf with rfl | hf
    · omega
    · have := ih hf
      omega

theorem exists_mem {j : Int} (hle : a ≤ j) (hlt : j < b) :
    exists f, f ∈ tiles ∧ f.identity.tokenSpan.1 ≤ j ∧ j ≤ f.identity.tokenSpan.2 := by
  induction h with
  | nil a => omega
  | @cons a b f rest hstart _ ih =>
    rcases lt_or_ge f.identity.tokenSpan.2 j with hbehind | hin
    · rcases ih (by omega) hlt with ⟨g, hg, hspan⟩
      exact ⟨g, List.mem_cons_of_mem f hg, hspan⟩
    · exact ⟨f, List.mem_cons_self, by omega, hin⟩

theorem eq_of_common {f g : Fragment} (hf : f ∈ tiles)
    (hg : g ∈ tiles) {j : Int} (hfj : f.identity.tokenSpan.1 ≤ j ∧ j ≤ f.identity.tokenSpan.2)
    (hgj : g.identity.tokenSpan.1 ≤ j ∧ j ≤ g.identity.tokenSpan.2) : f = g := by
  induction h with
  | nil a => cases hf
  | @cons a b head rest _ hrest ih =>
    rcases List.mem_cons.mp hf with hfhead | hfrest
    · rcases List.mem_cons.mp hg with hghead | hgrest
      · rw [hfhead, hghead]
      · rw [hfhead] at hfj
        have := (hrest.bounds hgrest).left
        omega
    · rcases List.mem_cons.mp hg with hghead | hgrest
      · rw [hghead] at hgj
        have := (hrest.bounds hfrest).left
        omega
      · exact ih hfrest hgrest

theorem nodup : tiles.Nodup := by
  induction h with
  | nil a => exact List.nodup_nil
  | @cons a b f rest _ hrest ih =>
    refine List.nodup_cons.mpr ⟨fun hf => ?_, ih⟩
    have hspan := f.identity.tokenSpan_valid.right.right
    have := (hrest.bounds hf).left
    omega

end

end Tiles

/-!
# Matching tokens
-/

namespace Reconstructor

section Matching

variable {owner error : Type} [TokenHash] {r : Reconstructor owner error}
  {promptTokens : List Int} {modelId : String} {f : Fragment}

/-- The span of a fragment lies in the prompt, and its hash is one of the hashes of the
tokens there. -/
structure Matches (promptTokens : List Int) (f : Fragment) : Prop where
  start : 0 ≤ f.identity.tokenSpan.1
  stop : f.identity.tokenSpan.2 < promptTokens.length
  hash : f.payloadHash ∈ tokenHashes
    ((promptTokens.take (f.identity.tokenSpan.2 + 1).toNat).drop f.identity.tokenSpan.1.toNat)

/-- At the greatest length at which the exact index offers an entry, the entry spans just
that many tokens. -/
def LongestOfferExact (r : Reconstructor owner error) (promptTokens : List Int)
    (modelId : String) : Prop :=
  forall i f, r.exactOffer promptTokens modelId i = some f ->
    (forall j, i < j -> r.exactOffer promptTokens modelId j = none) ->
      f.identity.tokenSpan.2 + 1 = i

theorem exactOffer_spec (hindex : r.indexSystem.WellBuilt) {i : Nat}
    (h : r.exactOffer promptTokens modelId i = some f) :
    i ≤ promptTokens.length ∧ f.identity.tokenSpan.1 = 0 ∧
      f.payloadHash ∈ tokenHashes (promptTokens.take i) := by
  unfold exactOffer at h
  split_ifs at h with hi
  rcases foldl_prefixHit_cases r modelId i (tokenHashes (promptTokens.take i)) none with
    hnone | ⟨hash, g, hhash, hfound, entry, hentry, rfl, _, hstart, _⟩
  · rw [hnone] at h
    cases h
  · rw [hfound] at h
    cases h
    refine ⟨(mem_prefixLengths hi).right, hstart, ?_⟩
    rw [(hindex.entry hash entry hentry).right]
    exact hhash

theorem matches_of_accepts (hverify : r.config.verifyTokens = true)
    (h : r.accepts promptTokens modelId f = true) : Matches promptTokens f := by
  have haccepts := (accepts_iff hverify f).mp h
  exact
    { start := f.identity.tokenSpan_valid.left
      stop := haccepts.right.right.left
      hash := haccepts.right.right.right }

theorem longestMatch_mem_assembled (h : r.longestMatch promptTokens modelId = some f) :
    f ∈ (r.assemble promptTokens modelId).assembled := by
  apply assemble_induction (fun a => f ∈ a.assembled)
  · unfold firstStep
    rw [h]
    exact List.mem_append_right _ List.mem_cons_self
  · intro a g ha _ _
    exact List.mem_append_left _ ha

theorem matches_exactOffer_iff (hindex : r.indexSystem.WellBuilt)
    (hhash : forall i k h, i ≤ promptTokens.length -> k ≤ promptTokens.length ->
      h ∈ tokenHashes (promptTokens.take i) -> h ∈ tokenHashes (promptTokens.take k) -> i = k)
    {i : Nat} (h : r.exactOffer promptTokens modelId i = some f) :
    Matches promptTokens f <-> f.identity.tokenSpan.2 + 1 = i := by
  rcases exactOffer_spec hindex h with ⟨hi, hstart, hfound⟩
  have hspan := f.identity.tokenSpan_valid.right.right
  constructor
  · intro hmatches
    have hstop := hmatches.stop
    have hcovered := hmatches.hash
    rw [hstart] at hcovered
    have hlength := hhash i (f.identity.tokenSpan.2 + 1).toNat _ hi (by omega) hfound hcovered
    omega
  · intro hlength
    refine ⟨by omega, by omega, ?_⟩
    rw [hstart, show (f.identity.tokenSpan.2 + 1).toNat = i by omega]
    exact hfound

/-- What is taken from the index matches the prompt exactly when the longest offer of the
exact index does. -/
theorem taken_match_iff (hindex : r.indexSystem.WellBuilt)
    (hverify : r.config.verifyTokens = true)
    (hhash : forall i k h, i ≤ promptTokens.length -> k ≤ promptTokens.length ->
      h ∈ tokenHashes (promptTokens.take i) -> h ∈ tokenHashes (promptTokens.take k) ->
        i = k) :
    (forall f, f ∈ (r.assemble promptTokens modelId).assembled -> Matches promptTokens f) <->
      r.LongestOfferExact promptTokens modelId := by
  constructor
  · intro hall i f hoffer hlast
    have hlongest := (longestMatch_eq_some_iff f).mpr ⟨i, hoffer, hlast⟩
    exact (matches_exactOffer_iff hindex hhash hoffer).mp
      (hall f (longestMatch_mem_assembled hlongest))
  · intro hexact
    apply forall_mem_assembled
    · intro f hlongest
      rcases (longestMatch_eq_some_iff f).mp hlongest with ⟨i, hoffer, hlast⟩
      exact (matches_exactOffer_iff hindex hhash hoffer).mpr (hexact i f hoffer hlast)
    · exact fun f _ haccepts => matches_of_accepts hverify haccepts

end Matching

end Reconstructor

/-!
## A window with its own span, and one with a longer span
-/

namespace Reconstructor

section Samples

attribute [local instance] TokenHash.letters

def overIndex (f : Fragment) : Reconstructor Unit String :=
  { indexSystem := IndexSystem.create.insert f ∅
    prefill := fun _ _ => .ok []
    config := ReconstructorConfig.default
    visible := none
    onPrefilled := none }

theorem length_letters (tokens : List Int) : (letters tokens).toList.length = tokens.length := by
  rw [letters, String.toList_ofList, List.length_map]

theorem letters_prefixes (tokens : List Int) (i k : Nat) (h : String) (hi : i ≤ tokens.length)
    (hk : k ≤ tokens.length) (hfirst : h ∈ tokenHashes (tokens.take i))
    (hsecond : h ∈ tokenHashes (tokens.take k)) : i = k := by
  have hletters : forall {window : List Int}, h ∈ tokenHashes window -> h = letters window := by
    intro window hmem
    rcases List.mem_cons.mp hmem with hmem | hmem
    · exact hmem
    · exact List.mem_singleton.mp hmem
  have hlength := congrArg (fun s => s.toList.length)
    ((hletters hfirst).symm.trans (hletters hsecond))
  simp only [length_letters, List.length_take] at hlength
  omega

theorem firstWindow_offerExact :
    (overIndex firstWindow).LongestOfferExact [0, 1] "model" := by
  intro i f hoffer _
  have hbound : i ≤ 2 := (exactOffer_spec
    (IndexSystem.create_wellBuilt.insert firstWindow ∅) hoffer).left
  have hnone : (overIndex firstWindow).exactOffer [0, 1] "model" 0 = none ∧
      (overIndex firstWindow).exactOffer [0, 1] "model" 2 = none := by
    decide +kernel
  have hone : (overIndex firstWindow).exactOffer [0, 1] "model" 1 = some firstWindow := by
    decide +kernel
  rcases (show i = 0 ∨ i = 1 ∨ i = 2 by omega) with rfl | rfl | rfl
  · cases hoffer
  · cases hoffer
    rfl
  · cases hoffer

theorem firstWindow_matches :
    ((overIndex firstWindow).assemble [0, 1] "model").assembled = [firstWindow] ∧
      forall f, f ∈ ((overIndex firstWindow).assemble [0, 1] "model").assembled ->
        Matches [0, 1] f :=
  ⟨by decide +kernel, (taken_match_iff (IndexSystem.create_wellBuilt.insert firstWindow ∅) rfl
    (letters_prefixes [0, 1])).mpr firstWindow_offerExact⟩

def wideWindow : Fragment :=
  Fragment.window "public" "a" "model" 0 1 validateTenantId_public nonempty_a

theorem wideWindow_not_matches :
    wideWindow ∈ ((overIndex wideWindow).assemble [0, 1] "model").assembled ∧
      ¬ Matches [0, 1] wideWindow := by
  refine ⟨by decide +kernel, ?_⟩
  intro hmatches
  exact absurd hmatches.hash (by decide +kernel)

end Samples

end Reconstructor

/-!
# The fragments that are kept
-/

section Kept

variable {f : Fragment} {fragments : List Fragment}

/-- No fragment before it has its hash. -/
def LeadsHash (fragments : List Fragment) (f : Fragment) : Prop :=
  exists before after, fragments = before ++ f :: after ∧
    forall g, g ∈ before -> g.payloadHash ≠ f.payloadHash

theorem leadsHash_cons_iff {head : Fragment} :
    LeadsHash (head :: fragments) f <->
      f = head ∨ head.payloadHash ≠ f.payloadHash ∧ LeadsHash fragments f := by
  constructor
  · rintro ⟨before, after, heq, hearlier⟩
    cases before with
    | nil =>
      cases heq
      exact Or.inl rfl
    | cons g before =>
      cases heq
      exact Or.inr ⟨hearlier head List.mem_cons_self, before, after, rfl,
        fun g hg => hearlier g (List.mem_cons_of_mem head hg)⟩
  · rintro (rfl | ⟨hne, before, after, rfl, hearlier⟩)
    · exact ⟨[], fragments, rfl, fun g hg => absurd hg List.not_mem_nil⟩
    · refine ⟨head :: before, after, rfl, fun g hg => ?_⟩
      rcases List.mem_cons.mp hg with rfl | hg
      · exact hne
      · exact hearlier g hg

theorem mem_firstOfHash_iff (seen : List String) :
    f ∈ firstOfHash seen fragments <-> ¬ f.payloadHash ∈ seen ∧ LeadsHash fragments f := by
  induction fragments generalizing seen with
  | nil =>
    refine ⟨fun hf => absurd hf List.not_mem_nil, ?_⟩
    rintro ⟨_, before, after, heq, _⟩
    exact absurd heq.symm (List.append_ne_nil_of_right_ne_nil _ (List.cons_ne_nil _ _))
  | cons head rest ih =>
    rw [firstOfHash, leadsHash_cons_iff]
    split_ifs with hseen
    · rw [ih]
      constructor
      · exact fun h => ⟨h.left, Or.inr ⟨fun heq => h.left (heq ▸ hseen), h.right⟩⟩
      · rintro ⟨hnew, rfl | hlater⟩
        · exact absurd hseen hnew
        · exact ⟨hnew, hlater.right⟩
    · rw [List.mem_cons, ih, List.mem_append, List.mem_singleton]
      constructor
      · rintro (rfl | ⟨hnew, hlater⟩)
        · exact ⟨hseen, Or.inl rfl⟩
        · exact ⟨fun h => hnew (Or.inl h),
            Or.inr ⟨fun heq => hnew (Or.inr heq.symm), hlater⟩⟩
      · rintro ⟨hnew, rfl | hlater⟩
        · exact Or.inl rfl
        · exact Or.inr ⟨fun h => h.elim hnew (fun heq => hlater.left heq.symm),
            hlater.right⟩

theorem exists_mem_firstOfHash (seen : List String) (hf : f ∈ fragments) :
    f.payloadHash ∈ seen ∨
      exists g, g ∈ firstOfHash seen fragments ∧ g.payloadHash = f.payloadHash := by
  induction fragments generalizing seen with
  | nil => cases hf
  | cons head rest ih =>
    rw [firstOfHash]
    split_ifs with hseen
    · rcases List.mem_cons.mp hf with rfl | hf
      · exact Or.inl hseen
      · exact ih seen hf
    · rcases List.mem_cons.mp hf with rfl | hf
      · exact Or.inr ⟨f, List.mem_cons_self, rfl⟩
      · rcases ih (seen ++ [head.payloadHash]) hf with hmem | ⟨g, hg, hhash⟩
        · rcases List.mem_append.mp hmem with hmem | hmem
          · exact Or.inl hmem
          · exact Or.inr ⟨head, List.mem_cons_self, (List.mem_singleton.mp hmem).symm⟩
        · exact Or.inr ⟨g, List.mem_cons_of_mem head hg, hhash⟩

theorem nodup_firstOfHash (seen : List String) (fragments : List Fragment) :
    ((firstOfHash seen fragments).map (fun f => f.payloadHash)).Nodup := by
  induction fragments generalizing seen with
  | nil => exact List.nodup_nil
  | cons f rest ih =>
    rw [firstOfHash]
    split_ifs
    · exact ih seen
    · rw [List.map_cons, List.nodup_cons]
      refine ⟨?_, ih _⟩
      intro hmem
      rcases List.mem_map.mp hmem with ⟨g, hg, hhash⟩
      exact (mem_of_mem_firstOfHash hg).right
        (List.mem_append_right _ (List.mem_singleton.mpr hhash))

theorem mem_firstOfHash_of_nodup (h : (fragments.map (fun f => f.payloadHash)).Nodup)
    (hf : f ∈ fragments) : f ∈ firstOfHash [] fragments := by
  rcases exists_mem_firstOfHash [] hf with hmem | ⟨g, hg, hhash⟩
  · exact absurd hmem List.not_mem_nil
  · rw [← List.inj_on_of_nodup_map h (mem_of_mem_firstOfHash hg).left hf hhash]
    exact hg

end Kept

/-!
# Coverage
-/

namespace Reconstructor

def Spanned (fragments : List Fragment) (j : Nat) : Prop :=
  exists f, f ∈ fragments ∧ f.identity.tokenSpan.1 ≤ j ∧ j ≤ f.identity.tokenSpan.2

theorem spanned_append {first second : List Fragment} {j : Nat} :
    Spanned (first ++ second) j <-> Spanned first j ∨ Spanned second j := by
  simp only [Spanned, List.mem_append, or_and_right, exists_or]

theorem spanned_deduplicateAndSort {fragments : List Fragment} {j : Nat} :
    Spanned (deduplicateAndSort fragments) j <->
      exists f, LeadsHash fragments f ∧ f.identity.tokenSpan.1 ≤ j ∧
        j ≤ f.identity.tokenSpan.2 := by
  rw [deduplicateAndSort_eq]
  simp only [Spanned, List.mem_insertionSort, mem_firstOfHash_iff, List.not_mem_nil,
    not_false_eq_true, true_and]

section Filling

variable {owner error : Type} {r : Reconstructor owner error} {promptTokens : List Int}
  {modelId : String} {s : Filling owner error}

theorem takePrefilled_of_ok {f : Fragment} {gapStart : Nat}
    (h : (r.takePrefilled gapStart s f).failure = none) :
    s.failure = none ∧
      (r.takePrefilled gapStart s f).toAssembly = s.toAssembly.cover (f.rebase gapStart) := by
  unfold takePrefilled at h ⊢
  by_cases hfailure : s.failure.isSome
  · rw [if_pos hfailure] at h
    rw [h] at hfailure
    cases hfailure
  · rw [if_neg hfailure] at h ⊢
    simp only at h ⊢
    refine ⟨Option.not_isSome_iff_eq_none.mp hfailure, ?_⟩
    split at h
    · cases h
    · rfl

theorem foldl_takePrefilled_of_ok (gapStart : Nat) (computed : List Fragment)
    (h : (computed.foldl (r.takePrefilled gapStart) s).failure = none) :
    s.failure = none ∧
      (computed.foldl (r.takePrefilled gapStart) s).toAssembly =
        (computed.map (fun f => f.rebase gapStart)).foldl Assembly.cover s.toAssembly := by
  induction computed generalizing s with
  | nil => exact ⟨h, rfl⟩
  | cons f rest ih =>
    rcases ih h with ⟨hnext, hrest⟩
    rcases takePrefilled_of_ok hnext with ⟨hs, hcover⟩
    refine ⟨hs, ?_⟩
    rw [List.foldl_cons, hrest, hcover]
    rfl

theorem foldl_cover (fragments : List Fragment) (a : Assembly) :
    (fragments.foldl Assembly.cover a).assembled = a.assembled ++ fragments ∧
      forall j : Nat, (fragments.foldl Assembly.cover a).coverage[j]? = some true <->
        a.coverage[j]? = some true ∨ j < a.coverage.length ∧ Spanned fragments j := by
  induction fragments generalizing a with
  | nil => exact ⟨(List.append_nil _).symm, fun j => by simp [Spanned]⟩
  | cons f rest ih =>
    rcases ih (a.cover f) with ⟨hassembled, hcovered⟩
    refine ⟨?_, ?_⟩
    · rw [List.foldl_cons, hassembled]
      show (a.assembled ++ [f]) ++ rest = _
      rw [List.append_assoc]
      rfl
    · intro j
      have hsplit : Spanned (f :: rest) j <-> Spanned [f] j ∨ Spanned rest j := by
        rw [← spanned_append]
        rfl
      have hone : Spanned [f] j <->
          f.identity.tokenSpan.1 ≤ j ∧ j ≤ f.identity.tokenSpan.2 := by
        simp [Spanned]
      have hlength : (a.cover f).coverage.length = a.coverage.length := length_mark _ _ _
      rw [List.foldl_cons, hcovered j, hlength, hsplit, hone,
        show (a.cover f).coverage[j]? = some true <-> _ from covered_mark_iff]
      tauto

theorem Backed.foldl_cover {a : Assembly} (h : Backed promptTokens a)
    (fragments : List Fragment) : Backed promptTokens (fragments.foldl Assembly.cover a) := by
  induction fragments generalizing a with
  | nil => exact h
  | cons f rest ih => exact ih (h.cover f)

theorem prefillGap_backed (h : s.failure = none -> Backed promptTokens s.toAssembly)
    (gap : Nat × Nat) (hok : (r.prefillGap promptTokens modelId s gap).failure = none) :
    Backed promptTokens (r.prefillGap promptTokens modelId s gap).toAssembly := by
  unfold Reconstructor.prefillGap at hok ⊢
  by_cases hfailure : s.failure.isSome
  · rw [if_pos hfailure] at hok ⊢
    exact h hok
  · have hs := h (Option.not_isSome_iff_eq_none.mp hfailure)
    rw [if_neg hfailure] at hok ⊢
    simp only at hok ⊢
    split_ifs at hok ⊢ with hlong
    · split at hok
      · cases hok
      · exact hs
      next f rest _ =>
          split_ifs at hok ⊢ with hfailed
          · rw [hok] at hfailed
            cases hfailed
          · show Backed promptTokens ((f :: rest).foldl (r.takePrefilled gap.1) _).toAssembly
            rw [(foldl_takePrefilled_of_ok gap.1 (f :: rest) hok).right]
            exact Backed.foldl_cover hs _
    · exact hs

variable [TokenHash]

theorem rebuildContext_backed {state : owner}
    (hok : (r.rebuildContext promptTokens modelId state).failure = none) :
    Backed promptTokens (r.rebuildContext promptTokens modelId state).toAssembly := by
  have hstart : ((r.assemble promptTokens modelId).unfilled r.indexSystem state :
      Filling owner error).failure = none ->
      Backed promptTokens (r.assemble promptTokens modelId) :=
    fun _ => assemble_backed r promptTokens modelId
  have hrun := List.foldlRecOn (findGaps (r.assemble promptTokens modelId).coverage)
    (r.prefillGap promptTokens modelId)
    (motive := fun s : Filling owner error =>
      s.failure = none -> Backed promptTokens s.toAssembly)
    hstart (fun s hs gap _ => prefillGap_backed hs gap)
  exact hrun hok

/-- Every position that is counted as covered lies in a returned fragment. -/
def CoverageBacked (r : Reconstructor owner error) (promptTokens : List Int)
    (modelId : String) (state : owner) : Prop :=
  forall result, (r.rebuildContext promptTokens modelId state).result = .ok result ->
    forall j : Nat, (r.rebuildContext promptTokens modelId state).coverage[j]? = some true ->
      Spanned result.fragments j

theorem coverageBacked_iff {state : owner}
    (hok : (r.rebuildContext promptTokens modelId state).failure = none) :
    r.CoverageBacked promptTokens modelId state <->
      forall j : Nat, j < promptTokens.length ->
        Spanned (r.rebuildContext promptTokens modelId state).assembled j ->
        exists f, LeadsHash (r.rebuildContext promptTokens modelId state).assembled f ∧
          f.identity.tokenSpan.1 ≤ j ∧ j ≤ f.identity.tokenSpan.2 := by
  have hbacked := rebuildContext_backed hok
  have hresult : exists ratio missing invoked,
      (r.rebuildContext promptTokens modelId state).result = .ok
        { fragments := deduplicateAndSort
            (r.rebuildContext promptTokens modelId state).assembled
          coverageRatio := ratio
          missingSegments := missing
          prefillInvoked := invoked } := by
    unfold Filling.result
    rw [hok]
    exact ⟨_, _, _, rfl⟩
  rcases hresult with ⟨ratio, missing, invoked, hresult⟩
  constructor
  · intro hcoverage j hj hspanned
    exact spanned_deduplicateAndSort.mp
      (hcoverage _ hresult j ((hbacked.covered j).mpr ⟨hj, hspanned⟩))
  · intro hkept result hother j hcovered
    rw [hresult] at hother
    cases hother
    rcases (hbacked.covered j).mp hcovered with ⟨hj, hspanned⟩
    exact spanned_deduplicateAndSort.mpr (hkept j hj hspanned)

/-!
# Prompts for which the index offers nothing
-/

theorem assemble_of_nothing (hnothing : forall f, ¬ r.Offered promptTokens modelId f) :
    r.assemble promptTokens modelId =
      { assembled := [], coverage := coveredTo promptTokens.length 0 } := by
  have hbacked := assemble_backed r promptTokens modelId
  have hassembled : (r.assemble promptTokens modelId).assembled = [] :=
    List.eq_nil_iff_forall_not_mem.mpr (forall_mem_assembled (fun _ => False)
      (fun f hlongest => hnothing f (offered_of_longestMatch hlongest))
      (fun f hoffered _ => hnothing f hoffered))
  have hcoverage : (r.assemble promptTokens modelId).coverage =
      coveredTo promptTokens.length 0 := by
    apply List.eq_replicate_iff.mpr
    refine ⟨hbacked.length, ?_⟩
    intro covered hcovered
    rcases List.mem_iff_getElem?.mp hcovered with ⟨j, hj⟩
    cases covered with
    | false => rfl
    | true =>
      rcases ((hbacked.covered j).mp hj).right with ⟨f, hf, _⟩
      rw [hassembled] at hf
      exact absurd hf List.not_mem_nil
  rw [← hassembled, ← hcoverage]

theorem rebuildContext_of_nothing (hnothing : forall f, ¬ r.Offered promptTokens modelId f)
    (hprompt : promptTokens ≠ []) (hgap : r.config.maxGapTokens < promptTokens.length)
    {computed : List Fragment} (hcomputed : r.prefill promptTokens modelId = .ok computed)
    (hne : computed ≠ []) {state : owner}
    (hok : (r.rebuildContext promptTokens modelId state).failure = none) :
    (r.rebuildContext promptTokens modelId state).assembled =
      computed.map (fun f => f.rebase 0) := by
  have hlength : 0 < promptTokens.length := List.length_pos_iff.mpr hprompt
  have hwhole : (promptTokens.take (promptTokens.length - 1 + 1)).drop 0 = promptTokens := by
    rw [Nat.sub_add_cancel hlength, List.take_length, List.drop_zero]
  obtain ⟨f, rest, rfl⟩ := List.exists_cons_of_ne_nil hne
  unfold rebuildContext at hok ⊢
  rw [assemble_of_nothing hnothing] at hok ⊢
  simp only [findGaps_coveredTo hlength, List.foldl_cons, List.foldl_nil] at hok ⊢
  unfold prefillGap at hok ⊢
  rw [if_neg (by simp [Assembly.unfilled])] at hok ⊢
  simp only [hwhole] at hok ⊢
  rw [if_pos hgap] at hok ⊢
  simp only [hcomputed] at hok ⊢
  split_ifs at hok ⊢ with hfailed
  · rw [hok] at hfailed
    cases hfailed
  · show ((f :: rest).foldl (r.takePrefilled 0) _).assembled = _
    rw [(foldl_takePrefilled_of_ok 0 (f :: rest) hok).right, (foldl_cover _ _).left]
    rfl

end Filling

end Reconstructor

theorem Tiles.rebase {a b : Int} {tiles : List Fragment} (h : Tiles a tiles b) (offset : Nat) :
    Tiles (a + offset) (tiles.map (fun f => f.rebase offset)) (b + offset) := by
  induction h with
  | nil a => exact Tiles.nil _
  | @cons a b f rest hstart _ ih =>
    have hspan : (f.rebase offset).identity.tokenSpan =
        (offset + f.identity.tokenSpan.1, offset + f.identity.tokenSpan.2) := rfl
    refine Tiles.cons ?_ ?_
    · rw [← hstart]
      exact Int.add_comm _ _
    · rw [hspan, show (offset : Int) + f.identity.tokenSpan.2 + 1 =
        f.identity.tokenSpan.2 + 1 + offset by omega]
      exact ih

namespace Reconstructor

/-- Of consecutive windows, the leading ones span what all span only if no hash repeats. -/
theorem leads_spanned_iff {tiles : List Fragment} {length : Nat} (h : Tiles 0 tiles length) :
    (forall j : Nat, j < length -> Spanned tiles j -> exists f, LeadsHash tiles f ∧
        f.identity.tokenSpan.1 ≤ j ∧ j ≤ f.identity.tokenSpan.2) <->
      (tiles.map (fun f => f.payloadHash)).Nodup := by
  have hfirst : forall f, f ∈ firstOfHash [] tiles <-> LeadsHash tiles f := by
    intro f
    rw [mem_firstOfHash_iff]
    exact and_iff_right List.not_mem_nil
  constructor
  · intro hkept
    have hmem : forall f, f ∈ tiles -> f ∈ firstOfHash [] tiles := by
      intro f hf
      have hspan := f.identity.tokenSpan_valid
      have hbounds := h.bounds hf
      have hstart : ((f.identity.tokenSpan.1.toNat : Nat) : Int) = f.identity.tokenSpan.1 :=
        Int.toNat_of_nonneg hspan.left
      have hf' : f.identity.tokenSpan.1 ≤ (f.identity.tokenSpan.1.toNat : Nat) ∧
          ((f.identity.tokenSpan.1.toNat : Nat) : Int) ≤ f.identity.tokenSpan.2 := by
        rw [hstart]
        exact ⟨le_refl _, hspan.right.right⟩
      rcases hkept _ (by omega) ⟨f, hf, hf'⟩ with ⟨g, hg, hgspan⟩
      have hg := (hfirst g).mpr hg
      rw [h.eq_of_common hf (mem_of_mem_firstOfHash hg).left hf' hgspan]
      exact hg
    apply List.Nodup.map_on _ h.nodup
    intro f hf g hg hhash
    exact List.inj_on_of_nodup_map (nodup_firstOfHash [] tiles) (hmem f hf) (hmem g hg) hhash
  · rintro hnodup j _ ⟨f, hf, hspan⟩
    exact ⟨f, (hfirst f).mp (mem_firstOfHash_of_nodup hnodup hf), hspan⟩

section Characterised

variable {owner error : Type} [TokenHash] {r : Reconstructor owner error}
  {promptTokens : List Int} {modelId : String}

theorem coverageBacked_of_nothing_iff (hnothing : forall f, ¬ r.Offered promptTokens modelId f)
    (hprompt : promptTokens ≠ []) (hgap : r.config.maxGapTokens < promptTokens.length)
    {computed : List Fragment} (hcomputed : r.prefill promptTokens modelId = .ok computed)
    (htiles : Tiles 0 computed promptTokens.length) {state : owner}
    (hok : (r.rebuildContext promptTokens modelId state).failure = none) :
    r.CoverageBacked promptTokens modelId state <->
      (computed.map (fun f => f.payloadHash)).Nodup := by
  have hlength : 0 < promptTokens.length := List.length_pos_iff.mpr hprompt
  have hne : computed ≠ [] := by
    rintro rfl
    rcases htiles.exists_mem (le_refl 0) (by omega) with ⟨f, hf, _⟩
    exact absurd hf List.not_mem_nil
  have htiles' := htiles.rebase 0
  rw [Int.natCast_zero, Int.add_zero, Int.add_zero] at htiles'
  have hhashes : computed.map (fun f => f.payloadHash) =
      (computed.map (fun f => f.rebase 0)).map (fun f => f.payloadHash) := by
    rw [List.map_map]
    rfl
  rw [hhashes, ← leads_spanned_iff htiles', coverageBacked_iff hok,
    rebuildContext_of_nothing hnothing hprompt hgap hcomputed hne hok]

/-- Coverage is backed exactly when every position that a collected fragment spans lies in a
collected fragment whose hash no earlier one has.  For a prompt that the index offers nothing
for, and an adapter that computes it window by window, this says that no two windows have the
same hash. -/
theorem coverageBacked_characterised (r : Reconstructor owner error)
    (promptTokens : List Int) (modelId : String) (state : owner)
    (hok : (r.rebuildContext promptTokens modelId state).failure = none) :
    (r.CoverageBacked promptTokens modelId state <->
      forall j : Nat, j < promptTokens.length ->
        Spanned (r.rebuildContext promptTokens modelId state).assembled j ->
        exists f, LeadsHash (r.rebuildContext promptTokens modelId state).assembled f ∧
          f.identity.tokenSpan.1 ≤ j ∧ j ≤ f.identity.tokenSpan.2) ∧
    ((forall f, ¬ r.Offered promptTokens modelId f) -> promptTokens ≠ [] ->
      r.config.maxGapTokens < promptTokens.length ->
      forall computed, r.prefill promptTokens modelId = .ok computed ->
        Tiles 0 computed promptTokens.length ->
          (r.CoverageBacked promptTokens modelId state <->
            (computed.map (fun f => f.payloadHash)).Nodup)) :=
  ⟨coverageBacked_iff hok, fun hnothing hprompt hgap _ hcomputed htiles =>
    coverageBacked_of_nothing_iff hnothing hprompt hgap hcomputed htiles hok⟩

end Characterised

end Reconstructor

/-!
## A prompt that repeats a window
-/

namespace Reconstructor

section Samples

attribute [local instance] TokenHash.letters

def overNothing (computed : List Fragment) : Reconstructor Unit String :=
  { indexSystem := IndexSystem.create
    prefill := fun _ _ => .ok computed
    config := { ReconstructorConfig.default with maxGapTokens := 0 }
    visible := none
    onPrefilled := none }

theorem nonempty_aa : ("aa" == "") = false := rfl

/-- Two equal tokens that are cached as one window.  Nothing is left to prefill. -/
def doubleWindow : Fragment :=
  Fragment.window "public" "aa" "model" 0 1 validateTenantId_public nonempty_aa

theorem doubleWindow_backed :
    { overIndex doubleWindow with
      prefill := fun _ _ => .ok [firstWindow]
      config := { ReconstructorConfig.default with maxGapTokens := 0 } }.CoverageBacked
        [0, 0] "model" () := by
  refine (coverageBacked_characterised _ [0, 0] "model" () (by decide +kernel)).left.mpr ?_
  rintro j _ ⟨f, hf, hspan⟩
  have hcollected : ({ overIndex doubleWindow with
      prefill := fun _ _ => .ok [firstWindow]
      config := { ReconstructorConfig.default with maxGapTokens := 0 } }.rebuildContext
        [0, 0] "model" ()).assembled = [doubleWindow] := by
    decide +kernel
  rw [hcollected] at hf ⊢
  rw [List.mem_singleton.mp hf] at hspan
  exact ⟨doubleWindow, leadsHash_cons_iff.mpr (Or.inl rfl), hspan⟩

def repeatedWindow : Fragment :=
  Fragment.window "public" "a" "model" 1 0 validateTenantId_public nonempty_a

theorem repeatedTokens_not_backed :
    (exists result, ((overNothing [firstWindow, repeatedWindow]).rebuildContext [0, 0]
        "model" ()).result = .ok result ∧ result.coverageRatio = 1 ∧
          result.fragments.map (fun f => f.identity.tokenSpan) = [(0, 0)]) ∧
      ¬ (overNothing [firstWindow, repeatedWindow]).CoverageBacked [0, 0] "model" () := by
  have hresult : exists result, ((overNothing [firstWindow, repeatedWindow]).rebuildContext
      [0, 0] "model" ()).result = .ok result ∧ result.coverageRatio = 1 ∧
        result.fragments.map (fun f => f.identity.tokenSpan) = [(0, 0)] :=
    ⟨_, rfl, by decide +kernel, by decide +kernel⟩
  refine ⟨hresult, ?_⟩
  intro hbacked
  rcases hresult with ⟨result, hresult, _, hspans⟩
  rcases hbacked result hresult 1 (by decide +kernel) with ⟨f, hf, _, hstop⟩
  have hspan : f.identity.tokenSpan ∈ [(0, 0)] := by
    rw [← hspans]
    exact List.mem_map_of_mem hf
  rw [List.mem_singleton.mp hspan] at hstop
  exact absurd hstop (by decide)

end Samples

end Reconstructor

end Services
end Membrane
