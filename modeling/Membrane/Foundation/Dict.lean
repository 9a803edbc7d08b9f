import Mathlib.Data.List.Nodup
import Mathlib.Data.List.Perm.Basic

/-!
# Insertion-ordered dictionaries

A dictionary is an association list whose keys occur once.  Assigning to a
present key keeps its position, assigning to an absent key appends it, and
deleting a key keeps the order of the others, so that iteration order is
insertion order.

Lookups are characterized by membership in the entry list.  Anything that
aggregates over the entries and does not depend on their order, such as a sum,
a count or a fold of a commutative operation, is transported along the two
permutation lemmas at the end of the module.
-/

namespace Membrane
namespace Foundation

structure Dict (alpha beta : Type) where
  entries : List (alpha × beta)
  nodup : (entries.map Prod.fst).Nodup
  deriving DecidableEq

namespace Dict

variable {alpha beta : Type}

def empty : Dict alpha beta :=
  { entries := [], nodup := List.nodup_nil }

def keys (d : Dict alpha beta) : List alpha :=
  d.entries.map Prod.fst

def values (d : Dict alpha beta) : List beta :=
  d.entries.map Prod.snd

def size (d : Dict alpha beta) : Nat :=
  d.entries.length

def mapValues {gamma : Type} (d : Dict alpha beta) (g : beta -> gamma) :
    Dict alpha gamma :=
  { entries := d.entries.map (fun e => (e.1, g e.2))
    nodup := by
      rw [List.map_map]
      exact d.nodup }

def filter (d : Dict alpha beta) (kept : alpha -> beta -> Bool) : Dict alpha beta :=
  { entries := d.entries.filter (fun e => kept e.1 e.2)
    nodup := d.nodup.sublist (List.filter_sublist.map Prod.fst) }

def dropOldest (d : Dict alpha beta) (count : Nat) : Dict alpha beta :=
  { entries := d.entries.drop count
    nodup := d.nodup.sublist ((List.drop_sublist count d.entries).map Prod.fst) }

theorem size_filter_le (d : Dict alpha beta) (kept : alpha -> beta -> Bool) :
    (d.filter kept).size ≤ d.size :=
  List.length_filter_le _ _

instance : Membership alpha (Dict alpha beta) :=
  ⟨fun d a => a ∈ d.keys⟩

theorem keys_nodup (d : Dict alpha beta) : d.keys.Nodup := d.nodup

variable {a : alpha} {b : beta} {d : Dict alpha beta}

theorem eq_of_mem_entries (d : Dict alpha beta) {c : beta} (hb : (a, b) ∈ d.entries)
    (hc : (a, c) ∈ d.entries) : b = c := by
  have hpair : (a, b) = (a, c) :=
    List.inj_on_of_nodup_map d.nodup hb hc rfl
  exact congrArg Prod.snd hpair

theorem nodup_entries (d : Dict alpha beta) : d.entries.Nodup :=
  List.Nodup.of_map Prod.fst d.nodup

theorem exists_mem_of_size_pos (h : 0 < d.size) : exists a, a ∈ d := by
  rcases List.exists_mem_of_length_pos h with ⟨e, he⟩
  exact ⟨e.1, List.mem_map_of_mem he⟩

@[simp] theorem not_mem_empty (a : alpha) : ¬ a ∈ (empty : Dict alpha beta) := by
  intro h
  cases h

variable [DecidableEq alpha]

instance (a : alpha) (d : Dict alpha beta) : Decidable (a ∈ d) :=
  inferInstanceAs (Decidable (a ∈ d.keys))

def get? (d : Dict alpha beta) (a : alpha) : Option beta :=
  (d.entries.find? (fun e => e.1 = a)).map Prod.snd

def getD (d : Dict alpha beta) (a : alpha) (default : beta) : beta :=
  (d.get? a).getD default

theorem map_fst_replace (es : List (alpha × beta)) (a : alpha) (b : beta) :
    (es.map (fun e => if e.1 = a then (a, b) else e)).map Prod.fst =
      es.map Prod.fst := by
  rw [List.map_map]
  apply List.map_congr_left
  intro e _he
  by_cases h : e.1 = a
  · simp [h]
  · simp [h]

def set (d : Dict alpha beta) (a : alpha) (b : beta) : Dict alpha beta :=
  if h : a ∈ d.keys then
    { entries := d.entries.map (fun e => if e.1 = a then (a, b) else e)
      nodup := by rw [map_fst_replace]; exact d.nodup }
  else
    { entries := d.entries ++ [(a, b)]
      nodup := by
        rw [List.map_append]
        exact List.nodup_append.mpr ⟨d.nodup, by simp, by
          intro x hx y hy hxy
          have hya : y = a := by simpa using hy
          exact h (by rw [← hya, ← hxy]; exact hx)⟩ }

def erase (d : Dict alpha beta) (a : alpha) : Dict alpha beta :=
  { entries := d.entries.filter (fun e => e.1 ≠ a)
    nodup := d.nodup.sublist (List.filter_sublist.map Prod.fst) }

/-!
# Lookup
-/

section

variable (d : Dict alpha beta) (a : alpha) (b : beta)

theorem get?_eq_some_iff :
    d.get? a = some b <-> (a, b) ∈ d.entries := by
  unfold get?
  constructor
  · intro h
    rcases Option.map_eq_some_iff.mp h with ⟨e, hfind, hsnd⟩
    have hkey : e.1 = a := by
      simpa using List.find?_some hfind
    have hmem : e ∈ d.entries := List.mem_of_find?_eq_some hfind
    rw [← hkey, ← hsnd]
    exact hmem
  · intro h
    cases hfind : d.entries.find? (fun e => e.1 = a) with
    | none =>
      have hnone := List.find?_eq_none.mp hfind (a, b) h
      simp at hnone
    | some e =>
      have hkey : e.1 = a := by
        simpa using List.find?_some hfind
      have hmem : (a, e.2) ∈ d.entries := by
        rw [← hkey]
        exact List.mem_of_find?_eq_some hfind
      rw [Option.map_some, d.eq_of_mem_entries hmem h]

theorem mem_iff_exists_get? : a ∈ d <-> exists b, d.get? a = some b := by
  constructor
  · intro h
    rcases List.mem_map.mp h with ⟨e, he, hfst⟩
    exists e.2
    apply (d.get?_eq_some_iff a e.2).mpr
    rw [← hfst]
    exact he
  · intro h
    rcases h with ⟨b, hb⟩
    exact List.mem_map.mpr ⟨(a, b), (d.get?_eq_some_iff a b).mp hb, rfl⟩

theorem get?_eq_none_iff : d.get? a = none <-> ¬ a ∈ d := by
  rw [mem_iff_exists_get?]
  cases h : d.get? a <;> simp

theorem mem_values_iff : b ∈ d.values <-> exists a, d.get? a = some b := by
  constructor
  · intro h
    rcases List.mem_map.mp h with ⟨e, he, hsnd⟩
    exists e.1
    apply (d.get?_eq_some_iff e.1 b).mpr
    rw [← hsnd]
    exact he
  · intro h
    rcases h with ⟨a, ha⟩
    exact List.mem_map.mpr ⟨(a, b), (d.get?_eq_some_iff a b).mp ha, rfl⟩

@[simp] theorem get?_empty : (empty : Dict alpha beta).get? a = none := rfl

end

theorem mem_of_get? (h : d.get? a = some b) : a ∈ d :=
  (d.mem_iff_exists_get? a).mpr ⟨b, h⟩

/-!
# Assignment and deletion
-/

section

variable (d)

theorem mem_entries_set (a : alpha) (b : beta) (c : alpha) (v : beta) :
    (c, v) ∈ (d.set a b).entries <->
      (c = a ∧ v = b) ∨ (c ≠ a ∧ (c, v) ∈ d.entries) := by
  unfold set
  by_cases h : a ∈ d.keys
  · rw [dif_pos h, List.mem_map]
    constructor
    · intro hmem
      rcases hmem with ⟨e, he, heq⟩
      split_ifs at heq with hea
      · cases heq
        exact Or.inl ⟨rfl, rfl⟩
      · rw [heq] at he hea
        exact Or.inr ⟨hea, he⟩
    · intro hcase
      rcases hcase with ⟨hc, hv⟩ | ⟨hc, hmem⟩
      · rcases List.mem_map.mp h with ⟨e, he, hfst⟩
        exact ⟨e, he, by rw [if_pos hfst, hc, hv]⟩
      · exact ⟨(c, v), hmem, by rw [if_neg hc]⟩
  · rw [dif_neg h, List.mem_append, List.mem_singleton, Prod.mk.injEq]
    constructor
    · intro hmem
      rcases hmem with hold | hnew
      · apply Or.inr
        constructor
        · intro hca
          apply h
          rw [← hca]
          exact List.mem_map.mpr ⟨(c, v), hold, rfl⟩
        · exact hold
      · exact Or.inl hnew
    · intro hcase
      rcases hcase with hnew | ⟨_hc, hold⟩
      · exact Or.inr hnew
      · exact Or.inl hold

@[simp] theorem get?_set_self (a : alpha) (b : beta) :
    (d.set a b).get? a = some b := by
  rw [get?_eq_some_iff, mem_entries_set]
  exact Or.inl ⟨rfl, rfl⟩

theorem get?_set_of_ne {c : alpha} (b : beta) (h : c ≠ a) :
    (d.set a b).get? c = d.get? c := by
  apply Option.ext
  intro v
  rw [get?_eq_some_iff, get?_eq_some_iff, mem_entries_set]
  simp [h]

theorem get?_set (a : alpha) (b : beta) (c : alpha) :
    (d.set a b).get? c = if c = a then some b else d.get? c := by
  split_ifs with h
  · rw [h, get?_set_self]
  · rw [get?_set_of_ne d b h]

@[simp] theorem mem_set (a : alpha) (b : beta) (c : alpha) :
    c ∈ d.set a b <-> c = a ∨ c ∈ d := by
  rw [mem_iff_exists_get?, mem_iff_exists_get?, get?_set]
  by_cases h : c = a <;> simp [h]

theorem mem_entries_erase (a c : alpha) (v : beta) :
    (c, v) ∈ (d.erase a).entries <-> c ≠ a ∧ (c, v) ∈ d.entries := by
  unfold erase
  simp [and_comm]

@[simp] theorem get?_erase_self (a : alpha) :
    (d.erase a).get? a = none := by
  rw [Option.eq_none_iff_forall_ne_some]
  intro v hv
  rw [get?_eq_some_iff, mem_entries_erase] at hv
  exact hv.left rfl

theorem get?_erase_of_ne {c : alpha} (h : c ≠ a) :
    (d.erase a).get? c = d.get? c := by
  apply Option.ext
  intro v
  rw [get?_eq_some_iff, get?_eq_some_iff, mem_entries_erase]
  simp [h]

theorem get?_erase (a c : alpha) :
    (d.erase a).get? c = if c = a then none else d.get? c := by
  split_ifs with h
  · rw [h, get?_erase_self]
  · rw [get?_erase_of_ne d h]

@[simp] theorem mem_erase (a c : alpha) :
    c ∈ d.erase a <-> c ≠ a ∧ c ∈ d := by
  rw [mem_iff_exists_get?, mem_iff_exists_get?, get?_erase]
  by_cases h : c = a <;> simp [h]

theorem get?_filter_eq_some_iff (kept : alpha -> beta -> Bool) (a : alpha) (b : beta) :
    (d.filter kept).get? a = some b <-> d.get? a = some b ∧ kept a b = true := by
  rw [get?_eq_some_iff, get?_eq_some_iff]
  exact List.mem_filter

theorem mem_filter (kept : alpha -> beta -> Bool) (a : alpha) :
    a ∈ d.filter kept <-> exists b, d.get? a = some b ∧ kept a b = true := by
  simp only [mem_iff_exists_get?, get?_filter_eq_some_iff]

theorem get?_mapValues {gamma : Type} (g : beta -> gamma) (a : alpha) :
    (d.mapValues g).get? a = (d.get? a).map g := by
  apply Option.ext
  intro c
  rw [get?_eq_some_iff, Option.map_eq_some_iff]
  constructor
  · intro h
    rcases List.mem_map.mp h with ⟨e, he, heq⟩
    cases heq
    exact ⟨e.2, (d.get?_eq_some_iff e.1 e.2).mpr he, rfl⟩
  · intro h
    rcases h with ⟨b, hb, hc⟩
    exact List.mem_map.mpr ⟨(a, b), (d.get?_eq_some_iff a b).mp hb, by rw [hc]⟩

end

theorem get?_of_get?_dropOldest {count : Nat} (h : (d.dropOldest count).get? a = some b) :
    d.get? a = some b := by
  rw [get?_eq_some_iff] at h ⊢
  exact List.mem_of_mem_drop h

/-!
# Aggregation over the entries
-/

theorem entries_set_of_not_mem (d : Dict alpha beta) (b : beta) (h : ¬ a ∈ d) :
    (d.set a b).entries = d.entries ++ [(a, b)] := by
  have hkeys : ¬ a ∈ d.keys := h
  unfold set
  rw [dif_neg hkeys]

theorem entries_perm_cons {d' : Dict alpha beta}
    (h : forall c v, (c, v) ∈ d'.entries <-> c = a ∧ v = b ∨ c ≠ a ∧ (c, v) ∈ d.entries) :
    d'.entries.Perm ((a, b) :: (d.erase a).entries) := by
  rw [List.perm_ext_iff_of_nodup (nodup_entries _)]
  · intro e
    rcases e with ⟨c, v⟩
    rw [h, List.mem_cons, mem_entries_erase, Prod.mk.injEq]
  · apply List.nodup_cons.mpr
    constructor
    · intro hmem
      exact ((mem_entries_erase d a a b).mp hmem).left rfl
    · exact nodup_entries _

theorem entries_perm_of_get? (h : d.get? a = some b) :
    d.entries.Perm ((a, b) :: (d.erase a).entries) := by
  have hself := (d.get?_eq_some_iff a b).mp h
  apply entries_perm_cons
  intro c v
  by_cases hc : c = a
  · rw [hc]
    simp only [true_and, ne_eq, not_true, false_and, or_false]
    exact ⟨fun hmem => d.eq_of_mem_entries hmem hself, fun hv => hv ▸ hself⟩
  · simp [hc]

theorem entries_perm_filter {d' : Dict alpha beta} (kept : alpha -> Bool)
    (h : forall a, d'.get? a = if kept a then d.get? a else none) :
    d'.entries.Perm (d.entries.filter (fun e => kept e.1)) := by
  rw [List.perm_ext_iff_of_nodup (nodup_entries _) ((nodup_entries _).filter _)]
  intro e
  rcases e with ⟨a, b⟩
  rw [← get?_eq_some_iff, h a, List.mem_filter, ← get?_eq_some_iff]
  by_cases hkept : kept a <;> simp [hkept]

theorem values_perm_of_get? (h : d.get? a = some b) : d.values.Perm (b :: (d.erase a).values) :=
  (entries_perm_of_get? h).map Prod.snd

theorem size_of_get? (h : d.get? a = some b) : d.size = (d.erase a).size + 1 :=
  (entries_perm_of_get? h).length_eq

section

variable (d : Dict alpha beta) (a : alpha) (b : beta)

theorem entries_set_perm : (d.set a b).entries.Perm ((a, b) :: (d.erase a).entries) :=
  entries_perm_cons (d.mem_entries_set a b)

theorem values_set_perm : (d.set a b).values.Perm (b :: (d.erase a).values) :=
  (d.entries_set_perm a b).map Prod.snd

theorem size_set : (d.set a b).size = (d.erase a).size + 1 :=
  (d.entries_set_perm a b).length_eq

theorem erase_eq_filter : d.erase a = d.filter (fun key _ => decide (key ≠ a)) := rfl

end

theorem erase_of_not_mem (d : Dict alpha beta) (h : ¬ a ∈ d) : d.erase a = d := by
  cases d with
  | mk entries nodup =>
    have hfilter : entries.filter (fun e => e.1 ≠ a) = entries := by
      apply List.filter_eq_self.mpr
      intro e he
      have hne : e.1 ≠ a := by
        intro hea
        apply h
        rw [← hea]
        exact List.mem_map.mpr ⟨e, he, rfl⟩
      simpa using hne
    simp only [erase, hfilter]

theorem entries_erase_head {rest : List (alpha × beta)} (h : d.entries = (a, b) :: rest) :
    (d.erase a).entries = rest := by
  have hnodup := d.nodup
  rw [h, List.map_cons, List.nodup_cons] at hnodup
  show d.entries.filter (fun e => e.1 ≠ a) = rest
  rw [h, List.filter_cons_of_neg (by simp), List.filter_eq_self]
  intro e he
  have hne : e.1 ≠ a := fun hea => hnodup.left (hea ▸ List.mem_map.mpr ⟨e, he, rfl⟩)
  simpa using hne

/-!
# Several keys at once
-/

def setAll (d : Dict alpha beta) (keys : List alpha) (b : beta) : Dict alpha beta :=
  keys.foldl (fun acc a => acc.set a b) d

def eraseAll (d : Dict alpha beta) (keys : List alpha) : Dict alpha beta :=
  keys.foldl (fun acc a => acc.erase a) d

section

variable (d) (keys : List alpha)

theorem get?_foldl_step {step : Dict alpha beta -> alpha -> Dict alpha beta}
    {written : Option beta}
    (h : forall d a c, (step d a).get? c = if c = a then written else d.get? c) (c : alpha) :
    (keys.foldl step d).get? c = if c ∈ keys then written else d.get? c := by
  induction keys generalizing d with
  | nil => rw [if_neg List.not_mem_nil, List.foldl_nil]
  | cons a rest ih =>
    rw [List.foldl_cons, ih, h]
    by_cases hrest : c ∈ rest
    · rw [if_pos hrest, if_pos (List.mem_cons_of_mem a hrest)]
    · simp only [List.mem_cons, hrest, or_false, if_false]

theorem get?_setAll (b : beta) (c : alpha) :
    (d.setAll keys b).get? c = if c ∈ keys then some b else d.get? c :=
  get?_foldl_step d keys (fun d a c => d.get?_set a b c) c

theorem get?_eraseAll (c : alpha) :
    (d.eraseAll keys).get? c = if c ∈ keys then none else d.get? c :=
  get?_foldl_step d keys (fun d => d.get?_erase) c

end

/-!
# Changing an entry in place
-/

def modify (d : Dict alpha beta) (a : alpha) (g : beta -> beta) : Dict alpha beta :=
  match d.get? a with
  | none => d
  | some b => d.set a (g b)

section

variable (d : Dict alpha beta) (a : alpha) (g : beta -> beta) (c : alpha)

theorem get?_modify :
    (d.modify a g).get? c = if c = a then (d.get? a).map g else d.get? c := by
  unfold modify
  cases h : d.get? a with
  | none =>
    by_cases hc : c = a
    · rw [if_pos hc, hc, h]
      rfl
    · rw [if_neg hc]
  | some b => rw [get?_set, Option.map_some]

@[simp] theorem mem_modify :
    c ∈ d.modify a g <-> c ∈ d := by
  rw [← not_iff_not, ← get?_eq_none_iff, ← get?_eq_none_iff, get?_modify]
  split_ifs with h
  · rw [h, Option.map_eq_none_iff]
  · rfl

end

/-!
# Merging and picking
-/

def update (d other : Dict alpha beta) : Dict alpha beta :=
  other.entries.foldl (fun merged e => merged.set e.1 e.2) d

/-- The last of the written values counts. -/
theorem get?_foldl_set {iota : Type} (es : List iota) (key : iota -> alpha)
    (value : iota -> beta) (d : Dict alpha beta) (a : alpha) :
    (es.foldl (fun d e => d.set (key e) (value e)) d).get? a =
      ((es.reverse.find? (fun e => key e = a)).map value).or (d.get? a) := by
  induction es generalizing d with
  | nil => rfl
  | cons e rest ih =>
    rw [List.foldl_cons, ih, List.reverse_cons, List.find?_append, get?_set]
    cases rest.reverse.find? (fun e => key e = a) with
    | some last => rfl
    | none =>
      by_cases h : key e = a
      · simp [h]
      · simp [h, Ne.symm h]

theorem get?_update_eq_some_iff (d other : Dict alpha beta) (a : alpha) (b : beta) :
    (d.update other).get? a = some b <->
      other.get? a = some b ∨ (¬ a ∈ other ∧ d.get? a = some b) := by
  have hnodup : (other.entries.reverse.map Prod.fst).Nodup := by
    rw [List.map_reverse, List.nodup_reverse]
    exact other.nodup
  have hreversed : get? ⟨other.entries.reverse, hnodup⟩ a = other.get? a := by
    ext b
    rw [get?_eq_some_iff, get?_eq_some_iff, List.mem_reverse]
  rw [update, get?_foldl_set, Option.or_eq_some_iff, ← get?_eq_none_iff, ← hreversed]
  rfl

def pick (d : Dict alpha beta) (keys : List alpha) : Dict alpha beta :=
  keys.foldl (fun picked a =>
    match d.get? a with
    | some b => picked.set a b
    | none => picked) empty

theorem get?_foldl_pick (d : Dict alpha beta) (keys : List alpha)
    (picked : Dict alpha beta) (a : alpha) :
    (keys.foldl (fun picked a =>
      match d.get? a with
      | some b => picked.set a b
      | none => picked) picked).get? a =
      if a ∈ keys then (d.get? a).or (picked.get? a) else picked.get? a := by
  induction keys generalizing picked with
  | nil => simp
  | cons c rest ih =>
    rw [List.foldl_cons, ih]
    by_cases hac : a = c
    · rw [← hac]
      cases hget : d.get? a with
      | none | some b => simp
    · cases hget : d.get? c with
      | none => simp [hac]
      | some b => simp [hac, get?_set]

theorem get?_pick (d : Dict alpha beta) (keys : List alpha) (a : alpha) :
    (d.pick keys).get? a = if a ∈ keys then d.get? a else none := by
  unfold pick
  rw [get?_foldl_pick, get?_empty, Option.or_none]

theorem mem_update (d other : Dict alpha beta) (a : alpha) :
    a ∈ d.update other <-> a ∈ d ∨ a ∈ other := by
  simp only [mem_iff_exists_get?, get?_update_eq_some_iff]
  constructor
  · intro h
    rcases h with ⟨b, h⟩
    rcases h with h | h
    · exact Or.inr ⟨b, h⟩
    · exact Or.inl ⟨b, h.right⟩
  · intro h
    by_cases hother : exists b, other.get? a = some b
    · rcases hother with ⟨b, hb⟩
      exact ⟨b, Or.inl hb⟩
    · rcases h with h | h
      · rcases h with ⟨b, hb⟩
        exact ⟨b, Or.inr ⟨hother, hb⟩⟩
      · exact absurd h hother

theorem mem_pick (d : Dict alpha beta) (keys : List alpha) (a : alpha) :
    a ∈ d.pick keys <-> a ∈ keys ∧ a ∈ d := by
  rw [mem_iff_exists_get?, mem_iff_exists_get?, get?_pick]
  by_cases h : a ∈ keys
  · simp [h]
  · simp [h]

end Dict

end Foundation
end Membrane
