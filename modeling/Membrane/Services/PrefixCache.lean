import Mathlib.Algebra.Order.Field.Rat
import Mathlib.Data.Finset.Basic
import Membrane.Foundation.Dict

/-!
# The prefix cache

Prompts that were matched before are kept in order of their last use, under a
digest of model and tokens.  A lookup compares the tokens themselves.
-/

namespace Membrane
namespace Services

open Foundation

class PrefixDigest where
  digest : String -> List Int -> String

@[reducible] def PrefixDigest.constant : PrefixDigest :=
  { digest := fun _ _ => "d" }

structure KVHandle where
  handle : String
  modelId : String
  tokenLen : Nat
  createdAt : ℚ
  deriving DecidableEq

def KVHandle.forPrefix [PrefixDigest] (modelId : String) (tokenIds : List Int) (now : ℚ) :
    KVHandle :=
  { handle := PrefixDigest.digest modelId tokenIds
    modelId := modelId
    tokenLen := tokenIds.length
    createdAt := now }

structure PrefixMatch where
  handle : Option KVHandle
  tokenLen : Nat
  isFull : Bool
  deriving DecidableEq

def PrefixMatch.miss : PrefixMatch :=
  { handle := none, tokenLen := 0, isFull := false }

structure Entry where
  handle : KVHandle
  tokenIds : List Int
  layerRange : Int × Int
  lastAccess : ℚ
  deriving DecidableEq

structure PrefixCache where
  capacity : Nat
  byHandle : Dict String Entry
  hits : Nat
  misses : Nat
  deriving DecidableEq

def matchingPrefixLen : List Int -> List Int -> Nat
  | x :: xs, y :: ys => if x ≠ y then 0 else matchingPrefixLen xs ys + 1
  | _, _ => 0

namespace PrefixCache

def create (capacity : Nat) : PrefixCache :=
  { capacity := capacity, byHandle := Dict.empty, hits := 0, misses := 0 }

variable (c : PrefixCache)

/-- The oldest entries leave until the capacity is met. -/
def evictIfNeeded : PrefixCache :=
  { c with
    byHandle := (c.byHandle.keys.take (c.byHandle.size - c.capacity)).foldl
      (fun byHandle handle => byHandle.erase handle) c.byHandle }

def insert [PrefixDigest] (modelId : String) (tokenIds : List Int) (layerRange : Int × Int)
    (mintedAt now : ℚ) : KVHandle × PrefixCache :=
  let handle := KVHandle.forPrefix modelId tokenIds mintedAt
  match c.byHandle.get? handle.handle with
  | some entry =>
    (entry.handle, { c with
      byHandle := (c.byHandle.erase handle.handle).set handle.handle
        { entry with lastAccess := now } })
  | none =>
    (handle, evictIfNeeded { c with
      byHandle := c.byHandle.set handle.handle
        { handle := handle
          tokenIds := tokenIds
          layerRange := layerRange
          lastAccess := now } })

def longest (modelId : String) (tokenIds : List Int) :
    List Entry -> Option Entry -> Option Entry
  | [], best => best
  | entry :: rest, best =>
    let prefixLen := matchingPrefixLen entry.tokenIds tokenIds
    if entry.handle.modelId ≠ modelId ∨ prefixLen = 0 ∨
        prefixLen ≠ entry.tokenIds.length then
      longest modelId tokenIds rest best
    else if (match best with
        | none => true
        | some b => b.handle.tokenLen < prefixLen) = true then
      if prefixLen = tokenIds.length then some entry
      else longest modelId tokenIds rest (some entry)
    else longest modelId tokenIds rest best

def lookup (modelId : String) (tokenIds : List Int) (now : ℚ) : PrefixMatch × PrefixCache :=
  if tokenIds = [] then (PrefixMatch.miss, c)
  else
    match longest modelId tokenIds c.byHandle.values none with
    | none => (PrefixMatch.miss, { c with misses := c.misses + 1 })
    | some best =>
      ({ handle := some best.handle
         tokenLen := best.handle.tokenLen
         isFull := best.handle.tokenLen = tokenIds.length },
        { c with
          byHandle := (c.byHandle.erase best.handle.handle).set best.handle.handle
            { best with lastAccess := now }
          hits := c.hits + 1 })

def forget (handles : Finset String) : PrefixCache :=
  { c with byHandle := c.byHandle.filter (fun handle _ => handle ∉ handles) }

end PrefixCache

theorem PrefixCache.longest_of_other_model {modelId : String} {entries : List Entry}
    (hother : forall e, e ∈ entries -> e.handle.modelId ≠ modelId) (tokenIds : List Int)
    (best : Option Entry) : longest modelId tokenIds entries best = best := by
  induction entries with
  | nil => rfl
  | cons entry rest ih =>
    unfold longest
    rw [if_pos (Or.inl (hother entry List.mem_cons_self))]
    exact ih (fun e he => hother e (List.mem_cons_of_mem _ he))

theorem PrefixCache.lookup_of_other_model {c : PrefixCache} {modelId : String}
    (hother : forall e, e ∈ c.byHandle.values -> e.handle.modelId ≠ modelId)
    (tokenIds : List Int) (now : ℚ) : (c.lookup modelId tokenIds now).1.handle = none := by
  unfold lookup
  rw [longest_of_other_model hother]
  split_ifs <;> rfl

end Services
end Membrane
