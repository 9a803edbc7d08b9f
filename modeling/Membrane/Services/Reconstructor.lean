import Mathlib.Data.List.Sort
import Membrane.Foundation.Coverage
import Membrane.Index.Queries

/-!
# The reconstructor

A prompt is covered with fragments in four steps: the longest prefix of the prompt
that the exact index knows, fragments behind it from the interval tree, one fragment
for each gap from the semantic index, and what a prefill adapter computes for the
gaps that remain.
-/

namespace Membrane
namespace Services

open Foundation Data Index

/-- The two digests of a window of tokens.  Both are hexadecimal. -/
class TokenHash where
  tokenHash : List Int -> String
  computeContentHash : List Int -> String
  tokenHash_plain : forall tokens, ¬ keySeparator ∈ (tokenHash tokens).toList
  computeContentHash_plain : forall tokens,
    ¬ keySeparator ∈ (computeContentHash tokens).toList

def letters (tokens : List Int) : String :=
  String.ofList (tokens.map (fun token => if token = 0 then 'a' else 'b'))

theorem mem_letters {tokens : List Int} {c : Char} (hc : c ∈ (letters tokens).toList) :
    c = 'a' ∨ c = 'b' := by
  rw [letters, String.toList_ofList] at hc
  rcases List.mem_map.mp hc with ⟨token, _, htoken⟩
  split_ifs at htoken
  · exact Or.inl htoken.symm
  · exact Or.inr htoken.symm

theorem letters_plain (tokens : List Int) : ¬ keySeparator ∈ (letters tokens).toList :=
  fun hmem => absurd (mem_letters hmem) (by decide)

@[reducible] def TokenHash.letters : TokenHash :=
  { tokenHash := Services.letters
    computeContentHash := Services.letters
    tokenHash_plain := letters_plain
    computeContentHash_plain := letters_plain }

def tokenHashes [TokenHash] (tokens : List Int) : List String :=
  [TokenHash.tokenHash tokens, TokenHash.computeContentHash tokens]

theorem tokenHashes_plain [TokenHash] {tokens : List Int} {h : String}
    (hh : h ∈ tokenHashes tokens) : ¬ keySeparator ∈ h.toList := by
  rcases List.mem_cons.mp hh with rfl | hh
  · exact TokenHash.tokenHash_plain tokens
  · rw [List.mem_singleton.mp hh]
    exact TokenHash.computeContentHash_plain tokens

structure ReconstructorConfig where
  maxGapTokens : Int
  maxPrefixAttempts : Int
  verifyTokens : Bool
  indexPrefilled : Bool

def ReconstructorConfig.default : ReconstructorConfig :=
  { maxGapTokens := 256
    maxPrefixAttempts := 128
    verifyTokens := true
    indexPrefilled := true }

structure ReconstructorResult where
  fragments : List Fragment
  coverageRatio : ℚ
  missingSegments : List (Nat × Nat)
  prefillInvoked : Bool

/-- Each prefilled fragment is handed to the owner.  The adapter and the owner may raise. -/
structure Reconstructor (owner error : Type) where
  indexSystem : IndexSystem
  prefill : List Int -> String -> Except error (List Fragment)
  config : ReconstructorConfig
  visible : Option (Fragment -> Bool)
  onPrefilled : Option (owner -> Fragment -> Except error Unit × owner)

structure Assembly where
  assembled : List Fragment
  coverage : List Bool

def Assembly.empty (length : Nat) : Assembly :=
  { assembled := [], coverage := List.replicate length false }

def Assembly.cover (a : Assembly) (f : Fragment) : Assembly :=
  { assembled := a.assembled ++ [f]
    coverage := mark f.identity.tokenSpan.1 f.identity.tokenSpan.2 a.coverage }

/-- The last step, with the gaps for which the adapter was called.  A failure ends it. -/
structure Filling (owner error : Type) extends Assembly where
  missing : List (Nat × Nat)
  invoked : Bool
  indexSystem : IndexSystem
  state : owner
  calls : List (Nat × Nat)
  failure : Option error

def Assembly.unfilled {owner error : Type} (a : Assembly) (indexSystem : IndexSystem)
    (state : owner) : Filling owner error :=
  { toAssembly := a
    missing := []
    invoked := false
    indexSystem := indexSystem
    state := state
    calls := []
    failure := none }

def deduplicateAndSort (fragments : List Fragment) : List Fragment :=
  (fragments.foldl
    (fun unique f =>
      if f.payloadHash ∈ unique.map (fun g => g.payloadHash) then unique
      else unique ++ [f]) []).insertionSort
    (fun f g => f.identity.tokenSpan.1 ≤ g.identity.tokenSpan.1)

def prefixLengths (maxPrefixAttempts : Int) (length : Nat) : List Nat :=
  let step :=
    if 0 < maxPrefixAttempts then max 1 (length / maxPrefixAttempts.toNat) else 1
  ((List.range length).map (fun i => length - i * step)).filter (fun i => 0 < i)

namespace Reconstructor

variable {owner error : Type} (r : Reconstructor owner error) (promptTokens : List Int)
  (modelId : String)

def sees (f : Fragment) : Bool :=
  match r.visible with
  | none => true
  | some visible => visible f

def prefixHit (i : Nat) (best : Option Fragment) (h : String) : Option Fragment :=
  match r.indexSystem.exactLookup h with
  | none => best
  | some entry =>
    let f := entry.fragment
    if f.identity.modelId = modelId ∧ f.identity.tokenSpan.1 = 0 ∧ r.sees f = true ∧
        (match best with
          | none => true
          | some b => b.identity.tokenSpan.2 - b.identity.tokenSpan.1 + 1 < i) = true then
      some f
    else best

variable [TokenHash]

def longestMatch : Option Fragment :=
  (prefixLengths r.config.maxPrefixAttempts promptTokens.length).findSome? fun i =>
    (tokenHashes (promptTokens.take i)).foldl (r.prefixHit modelId i) none

def accepts (f : Fragment) : Bool :=
  if f.identity.modelId ≠ modelId then false
  else if r.sees f = false then false
  else if r.config.verifyTokens = false then true
  else
    let start := f.identity.tokenSpan.1
    let stop := f.identity.tokenSpan.2
    if start < 0 ∨ (promptTokens.length : Int) ≤ stop ∨ stop < start then false
    else f.payloadHash ∈ tokenHashes ((promptTokens.take (stop + 1).toNat).drop start.toNat)

def findNextAdjacent (currentEnd : Int) : Option Fragment :=
  (r.indexSystem.positionalAdjacent currentEnd r.config.maxGapTokens).find? fun f =>
    r.accepts promptTokens modelId f && currentEnd < f.identity.tokenSpan.1 &&
      0 ≤ f.identity.tokenSpan.1 && f.identity.tokenSpan.2 < promptTokens.length

/-- The extension loop.  Every round moves the covered end forward. -/
def extend : Nat -> Assembly -> Assembly
  | 0, a => a
  | rounds + 1, a =>
    if coveredEnd a.coverage < (promptTokens.length : Int) - 1 then
      match r.findNextAdjacent promptTokens modelId (coveredEnd a.coverage) with
      | none => a
      | some f => extend rounds (a.cover f)
    else a

def fits (gap : Nat × Nat) (f : Fragment) : Bool :=
  (gap.1 : Int) ≤ f.identity.tokenSpan.1 && f.identity.tokenSpan.2 ≤ (gap.2 : Int) &&
    r.accepts promptTokens modelId f

/-- One fragment for a gap, among the first three of the semantic index. -/
def fillGap (a : Assembly) (gap : Nat × Nat) : Assembly :=
  match (r.indexSystem.semanticLookup 3).find? (r.fits promptTokens modelId gap) with
  | none => a
  | some f => a.cover f

def firstStep : Assembly :=
  match r.longestMatch promptTokens modelId with
  | none => Assembly.empty promptTokens.length
  | some f => (Assembly.empty promptTokens.length).cover f

def assemble : Assembly :=
  let extended := r.extend promptTokens modelId promptTokens.length
    (r.firstStep promptTokens modelId)
  (findGaps extended.coverage).foldl (r.fillGap promptTokens modelId) extended

/-- The adapter saw only the gap, so its spans are moved onto the prompt. -/
def takePrefilled (gapStart : Nat) (s : Filling owner error) (f : Fragment) :
    Filling owner error :=
  if s.failure.isSome then s
  else
    let f := f.rebase gapStart
    let told :=
      match r.onPrefilled with
      | none => (Except.ok (), s.state)
      | some onPrefilled => onPrefilled s.state f
    match told.1 with
    | .error e =>
      { s with assembled := s.assembled ++ [f], state := told.2, failure := some e }
    | .ok _ =>
      { s with
        toAssembly := s.toAssembly.cover f
        state := told.2
        indexSystem :=
          if r.config.indexPrefilled then s.indexSystem.insert f ∅ else s.indexSystem }

def prefillGap (s : Filling owner error) (gap : Nat × Nat) : Filling owner error :=
  if s.failure.isSome then s
  else
    let remaining := (promptTokens.take (gap.2 + 1)).drop gap.1
    if r.config.maxGapTokens < remaining.length then
      let called := { s with calls := s.calls ++ [gap] }
      match r.prefill remaining modelId with
      | .error e => { called with failure := some e }
      | .ok [] => called
      | .ok (f :: rest) =>
        let filled := (f :: rest).foldl (r.takePrefilled gap.1) { called with invoked := true }
        if filled.failure.isSome then filled
        else { filled with missing := filled.missing ++ [gap] }
    else { s with missing := s.missing ++ [gap] }

def rebuildContext (state : owner) : Filling owner error :=
  let a := r.assemble promptTokens modelId
  (findGaps a.coverage).foldl (r.prefillGap promptTokens modelId)
    (a.unfilled r.indexSystem state)

end Reconstructor

def Filling.result {owner error : Type} (s : Filling owner error) :
    Except error ReconstructorResult :=
  match s.failure with
  | some e => .error e
  | none =>
    .ok
      { fragments := deduplicateAndSort s.assembled
        coverageRatio :=
          if s.coverage = [] then 1 else (s.coverage.count true : ℚ) / s.coverage.length
        missingSegments := s.missing
        prefillInvoked := s.invoked }

end Services
end Membrane
