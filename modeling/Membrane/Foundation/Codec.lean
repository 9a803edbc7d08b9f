import Mathlib.Data.List.Basic
import Mathlib.Tactic.Ring

/-!
# Codecs of concatenated parts

A part of a text is written so that reading it back leaves what follows.  Parts are put
together to pairs and lists, so that a record is written as the concatenation of its
fields.
-/

namespace Membrane
namespace Foundation

theorem flatten_slices {alpha : Type} (items : List alpha) {size : Nat} (hsize : 0 < size) :
    ((List.range ((items.length + size - 1) / size)).map fun k =>
      (items.drop (k * size)).take size).flatten = items := by
  have htake : forall count, ((List.range count).map fun k =>
      (items.drop (k * size)).take size).flatten = items.take (count * size) := by
    intro count
    induction count with
    | zero => simp
    | succ count ih =>
      rw [List.range_succ, List.map_append, List.flatten_append, ih, Nat.succ_mul,
        List.take_add]
      simp
  rw [htake]
  apply List.take_of_length_le
  have := Nat.lt_div_mul_add (a := items.length + size - 1) hsize
  omega

/-!
# Little-endian numbers
-/

def littleEndian : Nat -> Nat -> List UInt8
  | 0, _ => []
  | width + 1, n => UInt8.ofNat n :: littleEndian width (n / 256)

def ofLittleEndian : List UInt8 -> Nat
  | [] => 0
  | low :: rest => low.toNat + 256 * ofLittleEndian rest

@[simp] theorem length_littleEndian (width n : Nat) :
    (littleEndian width n).length = width := by
  induction width generalizing n with
  | zero => rfl
  | succ width ih => rw [littleEndian, List.length_cons, ih]

theorem ofLittleEndian_littleEndian {width n : Nat} (h : n < 256 ^ width) :
    ofLittleEndian (littleEndian width n) = n := by
  induction width generalizing n with
  | zero =>
    rw [littleEndian, ofLittleEndian]
    omega
  | succ width ih =>
    have hhigh : n / 256 < 256 ^ width := by
      exact Nat.div_lt_of_lt_mul (by rw [Nat.mul_comm]; exact h)
    rw [littleEndian, ofLittleEndian, ih hhigh]
    have hlow : (UInt8.ofNat n).toNat = n % 256 := UInt8.toNat_ofNat'
    omega

theorem ofLittleEndian_lt (bytes : List UInt8) :
    ofLittleEndian bytes < 256 ^ bytes.length := by
  induction bytes with
  | nil => exact Nat.one_pos
  | cons low rest ih =>
    have hlow : low.toNat < 256 := low.toNat_lt
    rw [ofLittleEndian, List.length_cons]
    omega

theorem littleEndian_ofLittleEndian (bytes : List UInt8) :
    littleEndian bytes.length (ofLittleEndian bytes) = bytes := by
  induction bytes with
  | nil => rfl
  | cons low rest ih =>
    have hlow : low.toNat < 256 := low.toNat_lt
    have hhigh : (low.toNat + 256 * ofLittleEndian rest) / 256 = ofLittleEndian rest := by
      omega
    have hbyte : UInt8.ofNat (low.toNat + 256 * ofLittleEndian rest) = low := by
      apply UInt8.toNat_inj.mp
      rw [UInt8.toNat_ofNat']
      omega
    rw [List.length_cons, ofLittleEndian, littleEndian, hhigh, hbyte, ih]

theorem littleEndian_injective {width n m : Nat} (hn : n < 256 ^ width)
    (hm : m < 256 ^ width) (h : littleEndian width n = littleEndian width m) : n = m := by
  rw [← ofLittleEndian_littleEndian hn, h, ofLittleEndian_littleEndian hm]

/-- Values with a written form from which they can be read, whatever follows. -/
structure TextPart (alpha : Type) where
  write : alpha -> List UInt8
  read : List UInt8 -> Option (alpha × List UInt8)
  read_write : forall a rest, read (write a ++ rest) = some (a, rest)

namespace TextPart

variable {alpha beta : Type}

def readCount : List UInt8 -> Option (Nat × List UInt8)
  | [] => none
  | b :: rest =>
    if b = 0 then some (0, rest)
    else (readCount rest).map (fun found => (found.1 + 1, found.2))

theorem readCount_replicate (n : Nat) (rest : List UInt8) :
    readCount (List.replicate n 1 ++ 0 :: rest) = some (n, rest) := by
  induction n with
  | zero => rfl
  | succ n ih =>
    rw [List.replicate_succ, List.cons_append, readCount, ih]
    rfl

def count : TextPart Nat where
  write n := List.replicate n 1 ++ [0]
  read := readCount
  read_write n rest := by
    rw [List.append_assoc]
    exact readCount_replicate n rest

def via (p : TextPart alpha) (there : beta -> alpha) (back : alpha -> beta)
    (hback : forall b, back (there b) = b) : TextPart beta where
  write b := p.write (there b)
  read data := (p.read data).map (fun found => (back found.1, found.2))
  read_write b rest := by rw [p.read_write, Option.map_some, hback]

def pair (p : TextPart alpha) (q : TextPart beta) : TextPart (alpha × beta) where
  write both := p.write both.1 ++ q.write both.2
  read data := (p.read data).bind (fun first =>
    (q.read first.2).map (fun second => ((first.1, second.1), second.2)))
  read_write both rest := by
    rw [List.append_assoc, p.read_write, Option.bind_some, q.read_write]
    rfl

def readMany (p : TextPart alpha) : Nat -> List UInt8 -> Option (List alpha × List UInt8)
  | 0, data => some ([], data)
  | n + 1, data => (p.read data).bind (fun first =>
    (readMany p n first.2).map (fun others => (first.1 :: others.1, others.2)))

theorem readMany_flatMap (p : TextPart alpha) (items : List alpha) (rest : List UInt8) :
    p.readMany items.length (items.flatMap p.write ++ rest) = some (items, rest) := by
  induction items with
  | nil => rfl
  | cons first others ih =>
    rw [List.flatMap_cons, List.append_assoc, List.length_cons, readMany, p.read_write,
      Option.bind_some, ih]
    rfl

def many (p : TextPart alpha) : TextPart (List alpha) where
  write items := count.write items.length ++ items.flatMap p.write
  read data := (count.read data).bind (fun size => p.readMany size.1 size.2)
  read_write items rest := by
    rw [List.append_assoc, count.read_write, Option.bind_some, p.readMany_flatMap]

def text : TextPart String :=
  (many (count.via Char.toNat Char.ofNat Char.ofNat_toNat)).via String.toList String.ofList
    (fun _ => String.ofList_toList)

def token : TextPart Int :=
  (count.pair count).via (fun t => (t.toNat, (-t).toNat)) (fun both => both.1 - both.2)
    (fun t => by omega)

end TextPart

end Foundation
end Membrane
