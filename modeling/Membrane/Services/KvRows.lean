import Membrane.Store.PackedFields

/-!
# Rows of a bundle

The engine adapters frame the keys and values of a bundle as rows: a magic number, then for
each row its index, the length and the bytes of K, and the length and the bytes of V.
Reading the rows gives back what was framed.
-/

namespace Membrane
namespace Services

open Foundation Store

structure KvRow where
  index : Int
  k : Bytes
  v : Bytes
  deriving DecidableEq

def rowsMagic : Bytes := [0x4D, 0x4B, 0x56, 0x31]

def packIndex (index : Int) : Except FrameError Bytes :=
  if -2 ^ 63 ≤ index ∧ index < 2 ^ 63 then
    .ok (littleEndian 8 (index % 2 ^ 64).toNat)
  else .error .structError

def unpackIndex (data : Bytes) : Int :=
  if ofLittleEndian data < 2 ^ 63 then ofLittleEndian data
  else (ofLittleEndian data : Int) - 2 ^ 64

def packRow (row : KvRow) : Except FrameError Bytes := do
  let index <- packIndex row.index
  let kLen <- structPack 4 row.k.length
  let vLen <- structPack 4 row.v.length
  return index ++ (kLen ++ (row.k ++ (vLen ++ row.v)))

def packRows (rows : List KvRow) : Except FrameError Bytes := do
  let parts <- rows.mapM packRow
  return rowsMagic ++ parts.flatten

def truncated : FrameError :=
  .valueError "truncated KV bundle"

def unpackBlock (data : Bytes) : Except FrameError (Bytes × Bytes) :=
  if data.length < 4 + ofLittleEndian (data.take 4) then .error truncated
  else
    .ok ((data.drop 4).take (ofLittleEndian (data.take 4)),
      (data.drop 4).drop (ofLittleEndian (data.take 4)))

def unpackRow (data : Bytes) : Except FrameError (KvRow × Bytes) := do
  if data.length < 8 then
    throw truncated
  let (k, afterK) <- unpackBlock (data.drop 8)
  let (v, rest) <- unpackBlock afterK
  return ({ index := unpackIndex (data.take 8), k := k, v := v }, rest)

/-- A row takes bytes off the data, so that as many rows as there are bytes are enough. -/
def unpackAll : Nat -> Bytes -> Except FrameError (List KvRow)
  | 0, _ => .ok []
  | fuel + 1, data =>
    if data = [] then .ok []
    else
      match unpackRow data with
      | .error e => .error e
      | .ok (row, rest) => (unpackAll fuel rest).map (fun rows => row :: rows)

def unpackRows (data : Bytes) : Except FrameError (List KvRow) :=
  if rowsMagic.isPrefixOf data then
    unpackAll data.length (data.drop rowsMagic.length)
  else .error (.valueError "not a Membrane KV bundle")

/-!
# Reading what was framed
-/

variable {data : Bytes} {row : KvRow} {rows : List KvRow}

theorem packIndex_eq_ok {index : Int} (h : packIndex index = .ok data) :
    data.length = 8 ∧ unpackIndex data = index := by
  unfold packIndex at h
  split at h
  next hrange =>
      cases h
      have hlt : (index % 2 ^ 64).toNat < 256 ^ 8 := by omega
      refine ⟨length_littleEndian _ _, ?_⟩
      unfold unpackIndex
      rw [ofLittleEndian_littleEndian hlt]
      split
      · omega
      · omega
  · cases h

theorem packRow_eq_ok (h : packRow row = .ok data) :
    exists index, packIndex row.index = .ok index ∧
      row.k.length < 256 ^ 4 ∧ row.v.length < 256 ^ 4 ∧
      data = index ++ (littleEndian 4 row.k.length ++ (row.k ++
        (littleEndian 4 row.v.length ++ row.v))) := by
  obtain ⟨index, hindex, h⟩ := bind_eq_ok_iff.mp h
  obtain ⟨kLen, hk, h⟩ := bind_eq_ok_iff.mp h
  obtain ⟨vLen, hv, h⟩ := bind_eq_ok_iff.mp h
  obtain ⟨hkLt, rfl⟩ := structPack_eq_ok hk
  obtain ⟨hvLt, rfl⟩ := structPack_eq_ok hv
  cases h
  exact ⟨index, hindex, hkLt, hvLt, rfl⟩

theorem unpackBlock_append {block : Bytes} (h : block.length < 256 ^ 4) (rest : Bytes) :
    unpackBlock (littleEndian 4 block.length ++ (block ++ rest)) = .ok (block, rest) := by
  have hlength := length_littleEndian 4 block.length
  unfold unpackBlock
  rw [List.take_left' hlength, List.drop_left' hlength, ofLittleEndian_littleEndian h,
    List.take_left' rfl, List.drop_left' rfl]
  refine if_neg ?_
  rw [List.length_append, List.length_append]
  omega

theorem unpackRow_packRow (h : packRow row = .ok data) (rest : Bytes) :
    unpackRow (data ++ rest) = .ok (row, rest) := by
  obtain ⟨index, hindex, hk, hv, rfl⟩ := packRow_eq_ok h
  obtain ⟨hlength, hback⟩ := packIndex_eq_ok hindex
  simp only [List.append_assoc]
  unfold unpackRow
  rw [List.take_left' hlength, List.drop_left' hlength, unpackBlock_append hk, hback, if_neg]
  · simp only [ok_bind, unpackBlock_append hv]
    rfl
  · rw [List.length_append]
    omega

theorem packRow_ne_nil (h : packRow row = .ok data) (rest : Bytes) :
    data ++ rest ≠ [] := by
  obtain ⟨index, hindex, _, _, rfl⟩ := packRow_eq_ok h
  have hlength := (packIndex_eq_ok hindex).left
  intro hnil
  have hempty := congrArg List.length hnil
  simp only [List.length_append, List.length_nil] at hempty
  omega

theorem unpackAll_packRows {parts : List Bytes} (h : rows.mapM packRow = .ok parts)
    {fuel : Nat} (hfuel : rows.length ≤ fuel) :
    unpackAll fuel parts.flatten = .ok rows := by
  induction rows generalizing parts fuel with
  | nil =>
    cases h
    cases fuel with
    | zero | succ fuel => rfl
  | cons row rest ih =>
    obtain ⟨data, others, hrow, hrest, rfl⟩ := mapM_cons_eq_ok h
    cases fuel with
    | zero => cases hfuel
    | succ fuel =>
      rw [List.flatten_cons, unpackAll, if_neg (packRow_ne_nil hrow _),
        unpackRow_packRow hrow]
      simp only []
      rw [ih hrest (Nat.le_of_succ_le_succ hfuel)]
      rfl

theorem length_le_of_mapM {parts : List Bytes} (h : rows.mapM packRow = .ok parts) :
    rows.length ≤ parts.flatten.length := by
  induction rows generalizing parts with
  | nil => exact Nat.zero_le _
  | cons row rest ih =>
    obtain ⟨data, others, hrow, hrest, rfl⟩ := mapM_cons_eq_ok h
    have hothers := ih hrest
    have hdata := List.length_pos_iff.mpr (packRow_ne_nil hrow [])
    rw [List.append_nil] at hdata
    rw [List.flatten_cons, List.length_append, List.length_cons]
    omega

/-- What was framed is read back. -/
theorem unpackRows_packRows (h : packRows rows = .ok data) :
    unpackRows data = .ok rows := by
  obtain ⟨parts, hparts, h⟩ := bind_eq_ok_iff.mp h
  cases h
  have hfuel := length_le_of_mapM hparts
  unfold unpackRows
  rw [if_pos]
  · refine unpackAll_packRows hparts ?_
    rw [List.length_append]
    omega
  · exact List.isPrefixOf_iff_prefix.mpr (List.prefix_append _ _)

/-!
# Uniqueness
-/

def KvRow.Fits (row : KvRow) : Prop :=
  (-2 ^ 63 ≤ row.index ∧ row.index < 2 ^ 63) ∧ row.k.length < 2 ^ 32 ∧ row.v.length < 2 ^ 32

theorem packRow_of_fits (h : row.Fits) : exists data, packRow row = .ok data := by
  obtain ⟨hindex, hk, hv⟩ := h
  have hkLt : row.k.length < 256 ^ 4 := hk
  have hvLt : row.v.length < 256 ^ 4 := hv
  unfold packRow packIndex structPack
  rw [if_pos hindex, if_pos hkLt, if_pos hvLt]
  exact ⟨_, rfl⟩

theorem packRows_of_fits (h : forall row, row ∈ rows -> row.Fits) :
    exists parts, rows.mapM packRow = .ok parts := by
  induction rows with
  | nil => exact ⟨[], rfl⟩
  | cons row rest ih =>
    obtain ⟨data, hdata⟩ := packRow_of_fits (h row List.mem_cons_self)
    obtain ⟨parts, hparts⟩ := ih (fun r hr => h r (List.mem_cons_of_mem row hr))
    rw [List.mapM_cons, hdata, hparts]
    exact ⟨data :: parts, rfl⟩

theorem packIndex_unpackIndex (h : data.length = 8) :
    packIndex (unpackIndex data) = .ok data := by
  have hlt := ofLittleEndian_lt data
  rw [h] at hlt
  have hback : (unpackIndex data % 2 ^ 64).toNat = ofLittleEndian data := by
    unfold unpackIndex
    split
    · omega
    · omega
  unfold packIndex
  rw [hback, if_pos, ← h, littleEndian_ofLittleEndian]
  unfold unpackIndex
  split
  · omega
  · omega

theorem unpackBlock_cases (data : Bytes) :
    unpackBlock data = .error truncated ∨
      exists block rest, unpackBlock data = .ok (block, rest) ∧
        block.length < 256 ^ 4 ∧ data = littleEndian 4 block.length ++ (block ++ rest) := by
  unfold unpackBlock
  split
  · exact Or.inl rfl
  next hlength =>
      have hfour : (data.take 4).length = 4 := by
        rw [List.length_take]
        omega
      have hblock : ((data.drop 4).take (ofLittleEndian (data.take 4))).length =
          ofLittleEndian (data.take 4) := by
        rw [List.length_take, List.length_drop]
        omega
      have hlt := ofLittleEndian_lt (data.take 4)
      rw [hfour] at hlt
      refine Or.inr ⟨_, _, rfl, ?_, ?_⟩
      · rw [hblock]
        exact hlt
      · have hhead : littleEndian 4 (ofLittleEndian (data.take 4)) = data.take 4 := by
          have hback := littleEndian_ofLittleEndian (data.take 4)
          rw [hfour] at hback
          exact hback
        rw [hblock, hhead, List.take_append_drop, List.take_append_drop]

theorem unpackRow_cases (data : Bytes) :
    unpackRow data = .error truncated ∨
      exists row part rest, unpackRow data = .ok (row, rest) ∧
        packRow row = .ok part ∧ data = part ++ rest := by
  unfold unpackRow
  split
  · exact Or.inl rfl
  next hlength =>
      rcases unpackBlock_cases (data.drop 8) with hk | ⟨k, afterK, hk, hkLt, hkData⟩
      · rw [hk]
        exact Or.inl rfl
      · rcases unpackBlock_cases afterK with hv | ⟨v, rest, hv, hvLt, hvData⟩
        · refine Or.inl ?_
          simp only [hk, hv, ok_bind]
          rfl
        · have height : (data.take 8).length = 8 := by
            rw [List.length_take]
            omega
          refine Or.inr ⟨{ index := unpackIndex (data.take 8), k := k, v := v },
            data.take 8 ++ (littleEndian 4 k.length ++ (k ++ (littleEndian 4 v.length ++ v))),
            rest, ?_, ?_, ?_⟩
          · simp only [hk, hv, ok_bind]
            rfl
          · unfold packRow structPack
            rw [packIndex_unpackIndex height, if_pos hkLt, if_pos hvLt]
            rfl
          · simp only [List.append_assoc]
            rw [← hvData, ← hkData, List.take_append_drop]

theorem unpackAll_cases {fuel : Nat} (hfuel : data.length ≤ fuel) :
    unpackAll fuel data = .error truncated ∨
      exists rows parts, unpackAll fuel data = .ok rows ∧
        rows.mapM packRow = .ok parts ∧ data = parts.flatten := by
  induction fuel generalizing data with
  | zero =>
    have hnil := List.eq_nil_of_length_eq_zero (Nat.le_zero.mp hfuel)
    exact Or.inr ⟨[], [], rfl, rfl, hnil⟩
  | succ fuel ih =>
    rw [unpackAll]
    split
    next hnil => exact Or.inr ⟨[], [], rfl, rfl, hnil⟩
    next hne =>
        rcases unpackRow_cases data with hrow | ⟨row, part, rest, hrow, hpart, hdata⟩
        · rw [hrow]
          exact Or.inl rfl
        · have hpos := List.length_pos_iff.mpr (packRow_ne_nil hpart [])
          rw [List.append_nil] at hpos
          have hrest : rest.length ≤ fuel := by
            rw [hdata, List.length_append] at hfuel
            omega
          rw [hrow]
          simp only []
          rcases ih hrest with hall | ⟨rows, parts, hall, hparts, hflat⟩
          · rw [hall]
            exact Or.inl rfl
          · refine Or.inr ⟨row :: rows, part :: parts, ?_, ?_, ?_⟩
            · rw [hall]
              rfl
            · rw [List.mapM_cons, hpart, hparts]
              rfl
            · rw [List.flatten_cons, ← hflat, hdata]

theorem unpackRows_cases (data : Bytes) :
    (exists message, unpackRows data = .error (.valueError message)) ∨
      exists rows, unpackRows data = .ok rows ∧ packRows rows = .ok data := by
  unfold unpackRows
  split
  next hmagic =>
      obtain ⟨body, hbody⟩ := List.isPrefixOf_iff_prefix.mp hmagic
      subst hbody
      have hfuel : body.length ≤ (rowsMagic ++ body).length := by
        rw [List.length_append]
        omega
      rcases unpackAll_cases hfuel with hall | ⟨rows, parts, hall, hparts, hflat⟩
      · exact Or.inl ⟨_, hall⟩
      · refine Or.inr ⟨rows, hall, ?_⟩
        unfold packRows
        rw [hparts, hflat]
        rfl
  · exact Or.inl ⟨_, rfl⟩

/-- Rows that fit are framed and read back, and bytes are either refused with a value error or
are the frame of what is read. -/
theorem unpackRows_unique (rows : List KvRow) (hrows : forall row, row ∈ rows -> row.Fits)
    (data : Bytes) :
    (exists framed, packRows rows = .ok framed ∧ unpackRows framed = .ok rows) ∧
      ((exists message, unpackRows data = .error (.valueError message)) ∨
        exists read, unpackRows data = .ok read ∧ packRows read = .ok data) := by
  refine ⟨?_, unpackRows_cases data⟩
  obtain ⟨parts, hparts⟩ := packRows_of_fits hrows
  have hframed : packRows rows = .ok (rowsMagic ++ parts.flatten) := by
    unfold packRows
    rw [hparts]
    rfl
  exact ⟨_, hframed, unpackRows_packRows hframed⟩

theorem unpackRows_unique_pair :
    (exists framed, packRows [⟨-1, [1, 2], []⟩, ⟨7, [], [3]⟩] = .ok framed ∧
        unpackRows framed = .ok [⟨-1, [1, 2], []⟩, ⟨7, [], [3]⟩]) ∧
      ((exists message, unpackRows [0x4D] = .error (.valueError message)) ∨
        exists read, unpackRows [0x4D] = .ok read ∧
          packRows read = .ok [0x4D]) := by
  refine unpackRows_unique _ ?_ _
  intro row hrow
  simp only [List.mem_cons, List.not_mem_nil, or_false] at hrow
  rcases hrow with rfl | rfl
  · exact ⟨by decide, by decide, by decide⟩
  · exact ⟨by decide, by decide, by decide⟩

end Services
end Membrane
