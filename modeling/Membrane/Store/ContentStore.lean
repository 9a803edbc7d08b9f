import Membrane.Foundation.Dict

/-!
# Content stores

The bytes of a fragment live in a content store under the fragment's payload
reference.  The node is generic in the store and uses four operations of it.  A
store may be unable to address a key, and then raises from each of them.

The laws are those of a store that takes every key and keeps any two apart, such
as the dictionary of the store a node creates when none is given.  The store on
disk obeys them only for references that it can address and that do not share a
file.
-/

namespace Membrane
namespace Store

open Foundation

abbrev Bytes := List UInt8

/-- The operations of a store.  The fault of a key is the message that `get`, `has` and
`delete` raise for it. -/
class PayloadStore (sigma : Type) where
  fault (sigma) : String -> Option String
  get : sigma -> String -> Option Bytes
  has : sigma -> String -> Bool
  put : sigma -> String -> Bytes -> Except String sigma
  delete : sigma -> String -> Bool × sigma

/-- A store for which no key faults: each has a place of its own. -/
class ContentStore (sigma : Type) extends PayloadStore sigma where
  fault_eq : forall k, fault k = none
  has_eq : forall s k, has s k = (get s k).isSome
  get_put : forall s k data t, put s k data = .ok t ->
    forall j, get t j = if j = k then some data else get s j
  get_delete : forall s k j,
    get (delete s k).2 j = if j = k then none else get s j

namespace ContentStore

export PayloadStore (get has put delete)

variable {sigma : Type} [ContentStore sigma]

theorem has_put {s t : sigma} {k : String} {data : Bytes}
    (h : put s k data = .ok t) (j : String) :
    has t j = (decide (j = k) || has s j) := by
  rw [has_eq, has_eq, get_put s k data t h j]
  by_cases hjk : j = k <;> simp [hjk]

end ContentStore

structure InProcessBytes where
  store : Dict String Bytes
  usedBytes : Int
  capacityBytes : Option Nat
  deriving DecidableEq

namespace InProcessBytes

def create (capacityBytes : Option Nat) : InProcessBytes :=
  { store := Dict.empty, usedBytes := 0, capacityBytes := capacityBytes }

def exceedsCapacity (s : InProcessBytes) (data : Bytes) : Bool :=
  match s.capacityBytes with
  | none => false
  | some capacity => capacity < data.length

def put (s : InProcessBytes) (key : String) (data : Bytes) :
    Except String InProcessBytes :=
  if s.exceedsCapacity data then
    .error
      ("payload " ++ toString data.length ++ " bytes exceeds capacity_bytes " ++
        toString (s.capacityBytes.getD 0))
  else
    let previous := s.store.get? key
    .ok
      { s with
        store := s.store.set key data
        usedBytes := s.usedBytes +
          (data.length - (match previous with
            | some bytes => (bytes.length : Int)
            | none => 0)) }

def delete (s : InProcessBytes) (key : String) : Bool × InProcessBytes :=
  match s.store.get? key with
  | none => (false, s)
  | some removed =>
    (true,
      { s with
        store := s.store.erase key
        usedBytes := s.usedBytes - removed.length })

theorem get?_put {s t : InProcessBytes} {key : String} {data : Bytes}
    (h : s.put key data = .ok t) (j : String) :
    t.store.get? j = if j = key then some data else s.store.get? j := by
  unfold put at h
  by_cases hcap : s.exceedsCapacity data
  · rw [if_pos hcap] at h
    cases h
  · rw [if_neg hcap] at h
    cases h
    exact s.store.get?_set key data j

theorem get?_delete (s : InProcessBytes) (key j : String) :
    (s.delete key).2.store.get? j =
      if j = key then none else s.store.get? j := by
  unfold delete
  cases hget : s.store.get? key with
  | none =>
    by_cases hj : j = key
    · simp [hj, hget]
    · simp [hj]
  | some removed => exact s.store.get?_erase key j

instance : ContentStore InProcessBytes where
  fault _ := none
  get s k := s.store.get? k
  has s k := (s.store.get? k).isSome
  put := put
  delete := delete
  fault_eq _ := rfl
  has_eq _ _ := rfl
  get_put _ _ _ _ h j := get?_put h j
  get_delete s k j := get?_delete s k j

end InProcessBytes

end Store
end Membrane
