import Membrane.Store.CanonicalFrame

/-!
# Packed fields

Signed numbers are packed as their residues, and fields of one width that stand in a row are
cut off one after the other.
-/

namespace Membrane
namespace Store

open Foundation

variable {width : Nat}

theorem structPack_eq_ok {n : Nat} {data : Bytes} (h : structPack width n = .ok data) :
    n < 256 ^ width ∧ data = littleEndian width n := by
  unfold structPack at h
  split at h
  next hlt =>
      cases h
      exact ⟨hlt, rfl⟩
  · cases h

def SignedRange (width : Nat) (n : Int) : Prop :=
  -(256 ^ width : Nat) ≤ 2 * n ∧ 2 * n < (256 ^ width : Nat)

instance (width : Nat) (n : Int) : Decidable (SignedRange width n) :=
  inferInstanceAs (Decidable (_ ∧ _))

def packSigned (width : Nat) (n : Int) : Except FrameError Bytes :=
  if SignedRange width n then
    .ok (littleEndian width (n % (256 ^ width : Nat)).toNat)
  else .error .structError

def unpackSigned (data : Bytes) : Int :=
  if 2 * ofLittleEndian data < 256 ^ data.length then ofLittleEndian data
  else (ofLittleEndian data : Int) - (256 ^ data.length : Nat)

def signedField (width : Nat) (n : Int) : Bytes :=
  littleEndian width (n % (256 ^ width : Nat)).toNat

@[simp] theorem length_signedField (width : Nat) (n : Int) :
    (signedField width n).length = width :=
  length_littleEndian width _

theorem packSigned_of_range {n : Int} (h : SignedRange width n) :
    packSigned width n = .ok (signedField width n) :=
  if_pos h

theorem unpackSigned_signedField {n : Int} (h : SignedRange width n) :
    unpackSigned (signedField width n) = n := by
  have hpos : 0 < 256 ^ width := Nat.pow_pos (by decide)
  obtain ⟨hlow, hhigh⟩ := h
  have hlt : (n % (256 ^ width : Nat)).toNat < 256 ^ width := by
    omega
  unfold unpackSigned signedField
  rw [ofLittleEndian_littleEndian hlt, length_littleEndian]
  generalize hbound : 256 ^ width = bound at *
  by_cases hsign : 0 ≤ n
  · have hmod : n % (bound : Int) = n := Int.emod_eq_of_lt hsign (by omega)
    omega
  · have hmod : n % (bound : Int) = n + bound := by
      rw [← Int.add_emod_right]
      exact Int.emod_eq_of_lt (by omega) (by omega)
    rw [hmod, if_neg (by omega)]
    omega

/-!
# Cutting off fields
-/

def cut (width : Nat) : Nat -> Bytes -> List Bytes
  | 0, _ => []
  | count + 1, data => data.take width :: cut width count (data.drop width)

theorem cut_flatten {parts : List Bytes} (h : forall part, part ∈ parts -> part.length = width)
    (rest : Bytes) : cut width parts.length (parts.flatten ++ rest) = parts := by
  induction parts with
  | nil => rfl
  | cons part parts ih =>
    have hpart := h part List.mem_cons_self
    rw [List.length_cons, cut, List.flatten_cons, List.append_assoc,
      List.take_left' hpart, List.drop_left' hpart,
      ih (fun other hother => h other (List.mem_cons_of_mem part hother))]

theorem flatten_cut {count : Nat} {data : Bytes} (h : count * width ≤ data.length) :
    (cut width count data).flatten = data.take (count * width) := by
  induction count generalizing data with
  | zero => simp [cut]
  | succ count ih =>
    have hrest : count * width ≤ (data.drop width).length := by
      rw [Nat.succ_mul] at h
      rw [List.length_drop]
      omega
    rw [cut, List.flatten_cons, ih hrest, Nat.succ_mul, Nat.add_comm, List.take_add]

theorem unpackFrom_append {field : Bytes} (hfield : field.length = width) {before : Bytes}
    {offset : Nat} (hbefore : before.length = offset) (rest : Bytes) :
    unpackFrom width (before ++ (field ++ rest)) offset = .ok (ofLittleEndian field) := by
  unfold unpackFrom
  rw [List.drop_left' hbefore, List.take_left' hfield, if_pos]
  rw [List.length_append, List.length_append]
  omega

/-!
# Data behind a word
-/

theorem take_append_eq_iff_periodic {word : Bytes} (hword : 0 < word.length)
    (data rest : Bytes) :
    (word ++ (data ++ rest)).take data.length = data <->
      forall i, i < data.length -> data[i]? = word[i % word.length]? := by
  constructor
  · intro h i
    induction i using Nat.strongRecOn with
    | ind i ih =>
      intro hi
      have hget : data[i]? = (word ++ (data ++ rest))[i]? := by
        conv => lhs; rw [← h]
        exact List.getElem?_take_of_lt hi
      by_cases hfirst : i < word.length
      · rw [hget, List.getElem?_append_left hfirst, Nat.mod_eq_of_lt hfirst]
      · have hback : i - word.length < data.length := by omega
        rw [hget, List.getElem?_append_right (by omega), List.getElem?_append_left hback,
          ih _ (by omega) hback, ← Nat.mod_eq_sub_mod (by omega)]
  · intro h
    apply List.ext_getElem?
    intro i
    by_cases hi : i < data.length
    · rw [List.getElem?_take_of_lt hi, h i hi]
      by_cases hfirst : i < word.length
      · rw [List.getElem?_append_left hfirst, Nat.mod_eq_of_lt hfirst]
      · have hback : i - word.length < data.length := by omega
        rw [List.getElem?_append_right (by omega), List.getElem?_append_left hback,
          h _ hback, ← Nat.mod_eq_sub_mod (by omega)]
    · rw [List.getElem?_eq_none (by rw [List.length_take]; omega),
        List.getElem?_eq_none (by omega)]

end Store
end Membrane
