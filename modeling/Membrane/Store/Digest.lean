import Membrane.Foundation.Dict

/-!
# The bucketed inventory digest

A node's inventory is spread over buckets by a hash of the key.  A bucket
keeps its members and the exclusive or of one leaf hash per member, so that
adding or removing a member touches one bucket and one leaf.

The two hash functions are parameters: the digest is kept up to date whatever
they are.
-/

namespace Membrane
namespace Store

open Foundation

def buckets : Nat := 1024

class InventoryHash where
  bucketOf : String -> Fin buckets
  leaf : String -> Int -> BitVec 64

theorem buckets_pos : 0 < buckets := by decide

@[reducible] def InventoryHash.constant : InventoryHash where
  bucketOf _ := ⟨0, by decide⟩
  leaf _ _ := 0

open InventoryHash

variable [InventoryHash]

def fold (entries : Dict String Int) : BitVec 64 :=
  entries.entries.foldl (fun value e => value ^^^ leaf e.1 e.2) 0

structure InventoryDigest where
  digests : Fin buckets -> BitVec 64
  members : Fin buckets -> Dict String Int
  changes : Nat

namespace InventoryDigest

def empty : InventoryDigest :=
  { digests := fun _ => 0, members := fun _ => Dict.empty, changes := 0 }

def dropLeaf (digest : BitVec 64) (contentHash : String) : Option Int -> BitVec 64
  | none => digest
  | some previous => digest ^^^ leaf contentHash previous

def add (d : InventoryDigest) (contentHash : String) (version : Int) :
    InventoryDigest :=
  let bucket := bucketOf contentHash
  let members := d.members bucket
  let previous := members.get? contentHash
  if previous = some version then d
  else
    { digests := Function.update d.digests bucket
        (dropLeaf (d.digests bucket) contentHash previous ^^^ leaf contentHash version)
      members := Function.update d.members bucket (members.set contentHash version)
      changes := d.changes + 1 }

def remove (d : InventoryDigest) (contentHash : String) : InventoryDigest :=
  let bucket := bucketOf contentHash
  match (d.members bucket).get? contentHash with
  | none => d
  | some previous =>
    { members := Function.update d.members bucket
        ((d.members bucket).erase contentHash)
      digests := Function.update d.digests bucket
        (d.digests bucket ^^^ leaf contentHash previous)
      changes := d.changes + 1 }

end InventoryDigest

/-!
# Folding
-/

theorem foldl_leaf_perm {xs ys : List (String × Int)} (h : xs.Perm ys)
    (value : BitVec 64) :
    xs.foldl (fun value e => value ^^^ leaf e.1 e.2) value =
      ys.foldl (fun value e => value ^^^ leaf e.1 e.2) value := by
  induction h generalizing value with
  | nil => rfl
  | cons e _ ih => exact ih _
  | swap e e' rest =>
    simp only [List.foldl_cons]
    rw [BitVec.xor_assoc, BitVec.xor_comm (leaf e'.1 e'.2), ← BitVec.xor_assoc]
  | trans _ _ ih₁ ih₂ => rw [ih₁, ih₂]

theorem foldl_leaf_start (xs : List (String × Int)) (value : BitVec 64) :
    xs.foldl (fun value e => value ^^^ leaf e.1 e.2) value =
      value ^^^ xs.foldl (fun value e => value ^^^ leaf e.1 e.2) 0 := by
  induction xs generalizing value with
  | nil => simp
  | cons e rest ih =>
    simp only [List.foldl_cons]
    rw [ih, ih (0 ^^^ leaf e.1 e.2), ← BitVec.xor_assoc]
    simp

theorem fold_of_perm {entries rest : Dict String Int} {k : String} {v : Int}
    (h : entries.entries.Perm ((k, v) :: rest.entries)) :
    fold entries = leaf k v ^^^ fold rest := by
  unfold fold
  rw [foldl_leaf_perm h, List.foldl_cons, foldl_leaf_start]
  simp

theorem fold_set (entries : Dict String Int) (k : String) (v : Int) :
    fold (entries.set k v) = leaf k v ^^^ fold (entries.erase k) :=
  fold_of_perm (entries.entries_set_perm k v)

theorem fold_of_get? {entries : Dict String Int} {k : String} {v : Int}
    (h : entries.get? k = some v) :
    fold entries = leaf k v ^^^ fold (entries.erase k) :=
  fold_of_perm (Dict.entries_perm_of_get? h)

theorem fold_erase_of_get? {entries : Dict String Int} {k : String} {v : Int}
    (h : entries.get? k = some v) :
    fold (entries.erase k) = fold entries ^^^ leaf k v := by
  rw [fold_of_get? h, BitVec.xor_comm (leaf k v), BitVec.xor_assoc,
    BitVec.xor_self, BitVec.xor_zero]

/-!
# Mirroring an inventory
-/

/-- The members are exactly the given inventory, each in its own bucket, and
every bucket digest is the fold of its members. -/
structure InventoryDigest.Mirrors (d : InventoryDigest)
    (inventory : String -> Option Int) : Prop where
  members_eq : forall bucket k,
    (d.members bucket).get? k = if bucketOf k = bucket then inventory k else none
  digests_eq : forall bucket, d.digests bucket = fold (d.members bucket)

namespace InventoryDigest

theorem mirrors_empty : empty.Mirrors (fun _ => none) where
  members_eq bucket k := by simp [empty]
  digests_eq bucket := rfl

variable {d : InventoryDigest} {inventory : String -> Option Int}

theorem update_members_eq (h : d.Mirrors inventory) (k : String)
    (held : Option Int) (entries : Dict String Int)
    (hentries : forall j,
      entries.get? j = if j = k then held else (d.members (bucketOf k)).get? j)
    (bucket : Fin buckets) (j : String) :
    (Function.update d.members (bucketOf k) entries bucket).get? j =
      if bucketOf j = bucket then Function.update inventory k held j else none := by
  by_cases hbucket : bucket = bucketOf k
  · rw [hbucket, Function.update_self, hentries j]
    by_cases hj : j = k
    · simp [hj]
    · rw [if_neg hj, Function.update_of_ne hj, h.members_eq]
  · rw [Function.update_of_ne hbucket, h.members_eq]
    by_cases hj : j = k
    · have hne : bucketOf j ≠ bucket := by
        rw [hj]
        exact Ne.symm hbucket
      rw [if_neg hne, if_neg hne]
    · rw [Function.update_of_ne hj]

theorem update_digests_eq (h : d.Mirrors inventory)
    (written : Fin buckets) (entries : Dict String Int) (digest : BitVec 64)
    (hdigest : digest = fold entries) (bucket : Fin buckets) :
    Function.update d.digests written digest bucket =
      fold (Function.update d.members written entries bucket) := by
  by_cases hbucket : bucket = written
  · rw [hbucket, Function.update_self, Function.update_self, hdigest]
  · rw [Function.update_of_ne hbucket, Function.update_of_ne hbucket,
      h.digests_eq]

theorem dropLeaf_get? (entries : Dict String Int) (k : String) :
    dropLeaf (fold entries) k (entries.get? k) = fold (entries.erase k) := by
  cases hprev : entries.get? k with
  | none =>
    have habsent : ¬ k ∈ entries := (Dict.get?_eq_none_iff _ _).mp hprev
    rw [entries.erase_of_not_mem habsent]
    rfl
  | some previous => exact (fold_erase_of_get? hprev).symm

theorem held_eq (h : d.Mirrors inventory) (k : String) :
    inventory k = (d.members (bucketOf k)).get? k := by
  rw [h.members_eq, if_pos rfl]

theorem add_mirrors (h : d.Mirrors inventory) (k : String) (v : Int) :
    (d.add k v).Mirrors (Function.update inventory k (some v)) := by
  unfold add
  by_cases hsame : (d.members (bucketOf k)).get? k = some v
  · simp only [if_pos hsame]
    rw [← hsame, ← held_eq h, Function.update_eq_self]
    exact h
  · simp only [if_neg hsame]
    constructor
    · exact update_members_eq h k (some v) _
        ((d.members (bucketOf k)).get?_set k v)
    · apply update_digests_eq h
      rw [h.digests_eq, dropLeaf_get?, fold_set, BitVec.xor_comm]

theorem remove_mirrors (h : d.Mirrors inventory) (k : String) :
    (d.remove k).Mirrors (Function.update inventory k none) := by
  unfold remove
  cases hprev : (d.members (bucketOf k)).get? k with
  | none =>
    simp only [hprev]
    rw [← hprev, ← held_eq h, Function.update_eq_self]
    exact h
  | some previous =>
    simp only [hprev]
    constructor
    · exact update_members_eq h k none _
        ((d.members (bucketOf k)).get?_erase k)
    · apply update_digests_eq h
      rw [fold_erase_of_get? hprev, h.digests_eq]

end InventoryDigest

end Store
end Membrane
