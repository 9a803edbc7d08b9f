import Mathlib.Data.Prod.Lex
import Mathlib.Data.String.Basic
import Membrane.Foundation.Paging
import Membrane.Store.Digest

/-!
# Pages of the inventory digest

One bucket is paged in the order of its keys.  A cursor of the whole inventory names a bucket
and the last key returned from it, and is written as text.
-/

namespace Membrane
namespace Store

open Foundation

theorem ne_empty_of_lt {a b : String} (h : a < b) : b ≠ "" := by
  intro hempty
  rw [hempty] at h
  exact List.not_lt_nil _ h

theorem empty_lt_of_ne {k : String} (h : k ≠ "") : "" < k := by
  rw [String.lt_iff_toList_lt]
  cases hlist : k.toList with
  | nil => exact absurd (String.toList_inj.mp hlist) h
  | cons c rest => exact List.nil_lt_cons c rest

namespace InventoryDigest

/-- Members of one bucket after a key, and the cursor of the next page, which is empty on the
last one. -/
def page (d : InventoryDigest) (bucket : Fin buckets) (after : String) (limit : Int) :
    Dict String Int × String :=
  let members := d.members bucket
  let ordered := sortedAfter members.keys after
  if 0 < limit ∧ limit < ordered.length then
    let ordered := ordered.take limit.toNat
    (members.pick ordered, ordered.getLast?.getD "")
  else (members.pick ordered, "")

structure PageOf (members : Dict String Int) (after : String)
    (page : Dict String Int × String) : Prop where
  mem_iff : forall k, k ∈ page.1 <->
    k ∈ members ∧ after < k ∧ (page.2 ≠ "" -> k ≤ page.2)
  nonempty : page.2 ≠ "" -> exists k, k ∈ page.1

theorem page_pageOf (d : InventoryDigest) (bucket : Fin buckets) (after : String)
    (limit : Int) : PageOf (d.members bucket) after (d.page bucket after limit) := by
  have hsorted := pairwise_sortedAfter (d.members bucket).keys_nodup after
  have hordered : forall k, k ∈ sortedAfter (d.members bucket).keys after <->
      k ∈ d.members bucket ∧ after < k := fun k => mem_sortedAfter
  unfold page
  by_cases hcut : 0 < limit ∧ limit < (sortedAfter (d.members bucket).keys after).length
  · simp only [if_pos hcut]
    have hpos : 0 < ((sortedAfter (d.members bucket).keys after).take limit.toNat).length := by
      rw [List.length_take]
      omega
    have hlast := List.getLast?_eq_some_getLast (List.ne_nil_of_length_pos hpos)
    have hmem := List.mem_of_getLast? hlast
    rw [hlast]
    have hcursor : List.getLast _ (List.ne_nil_of_length_pos hpos) ≠ "" :=
      ne_empty_of_lt ((hordered _).mp (List.mem_of_mem_take hmem)).right
    constructor
    · intro k
      rw [Dict.mem_pick, mem_take_iff_le hsorted hlast, hordered]
      constructor
      · intro h
        exact ⟨h.right, h.left.left.right, fun _ => h.left.right⟩
      · intro h
        exact ⟨⟨⟨h.left, h.right.left⟩, h.right.right hcursor⟩, h.left⟩
    · intro _
      have hheld := ((hordered _).mp (List.mem_of_mem_take hmem)).left
      exact ⟨_, (Dict.mem_pick _ _ _).mpr ⟨hmem, hheld⟩⟩
  · simp only [if_neg hcut]
    constructor
    · intro k
      rw [Dict.mem_pick, hordered]
      simp only [ne_eq, not_true_eq_false, false_implies, and_true]
      exact ⟨fun h => h.left, fun h => ⟨h, h.left⟩⟩
    · intro h
      exact absurd rfl h

end InventoryDigest

/-!
# Cursors
-/

def encodeCursor (bucket : Fin buckets) (contentHash : String) : String :=
  toString bucket.val ++ ":" ++ contentHash

/-- The bucket and the key to go on after.  Anything but digits before the separator starts
again at the first bucket. -/
def decodeCursor (cursor : String) : Fin buckets × String :=
  match cursor.toList.span (fun c => c ≠ ':') with
  | (_, []) => (⟨0, buckets_pos⟩, "")
  | (bucket, _ :: contentHash) =>
    if bucket ≠ [] ∧ bucket.all Char.isDigit then
      (⟨min (Nat.ofDigitChars 10 bucket 0) (buckets - 1), by unfold buckets; omega⟩,
        String.ofList contentHash)
    else (⟨0, buckets_pos⟩, "")

section

variable (bucket : Fin buckets) (contentHash : String)

theorem toList_encodeCursor :
    (encodeCursor bucket contentHash).toList =
      Nat.toDigits 10 bucket.val ++ ':' :: contentHash.toList := by
  unfold encodeCursor
  rw [String.toList_append, String.toList_append]
  show bucket.val.repr.toList ++ [':'] ++ contentHash.toList = _
  rw [Nat.toList_repr, List.append_assoc]
  rfl

theorem encodeCursor_ne_empty :
    encodeCursor bucket contentHash ≠ "" := by
  intro h
  have hlist := congrArg String.toList h
  rw [toList_encodeCursor] at hlist
  simp at hlist

theorem isDigit_of_mem {n : Nat} {c : Char} (h : c ∈ Nat.toDigits 10 n) :
    c.isDigit = true :=
  Nat.isDigit_of_mem_toDigits (by omega) (by omega) h

theorem span_toDigits (n : Nat) (rest : List Char) :
    (Nat.toDigits 10 n ++ ':' :: rest).span (fun c => c ≠ ':') =
      (Nat.toDigits 10 n, ':' :: rest) := by
  have hdigits : forall c, c ∈ Nat.toDigits 10 n -> decide (c ≠ ':') = true := by
    intro c hc
    have hdigit := isDigit_of_mem hc
    rw [decide_eq_true_iff]
    intro hcolon
    rw [hcolon] at hdigit
    exact absurd hdigit (by decide)
  rw [List.span_eq_takeWhile_dropWhile, List.takeWhile_append_of_pos hdigits,
    List.dropWhile_append_of_pos hdigits]
  simp

theorem decodeCursor_encodeCursor :
    decodeCursor (encodeCursor bucket contentHash) = (bucket, contentHash) := by
  have hdigits : (Nat.toDigits 10 bucket.val).all Char.isDigit = true := by
    rw [List.all_eq_true]
    intro c hc
    exact isDigit_of_mem hc
  unfold decodeCursor
  rw [toList_encodeCursor, span_toDigits]
  simp only [Nat.toDigits_ne_nil, hdigits, ne_eq, not_false_eq_true, and_self, if_true,
    Nat.ofDigitChars_ten_toDigits, String.ofList_toList, Prod.mk.injEq, and_true]
  apply Fin.ext
  show min bucket.val (buckets - 1) = bucket.val
  omega

end

end Store
end Membrane
