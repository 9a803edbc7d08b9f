import Mathlib.Data.List.Sort
import Mathlib.Data.Prod.Lex
import Mathlib.Data.String.Basic
import Membrane.Foundation.PairedTree
import Membrane.Store.QuantizedFrame

/-!
# Comparing inventories by their trees

An inventory of pairs of a hash and an owner is sorted and hashed to one root, level by level,
with the last node of an odd level taken twice.  Two trees with one root are taken to hold the
same pairs.  Otherwise the pairs of the other tree are kept under their hashes, so that of
several owners of a hash only the last one is known.

The text of a pair joins its two parts, so different pairs may have one text.  If the hash
tells apart what is hashed in the two trees, they have one root exactly when they are built
over the same texts.
-/

namespace Membrane
namespace Transport

open Foundation Store

abbrev Pair := String × String

/-!
# Pairs in order
-/

abbrev PairLe : Pair -> Pair -> Prop :=
  Order.Preimage toLex (fun p q => p ≤ q)

def ownerOf (items : List Pair) (payloadHash : String) : Option String :=
  items.reverse.lookup payloadHash

def placesOf (items : List Pair) (p : Pair -> Bool) : List Nat :=
  (List.range items.length).filter (fun i => (items[i]?).any p)

theorem placesOf_eq_iff {items : List Pair} {p q : Pair -> Bool} :
    placesOf items p = placesOf items q <-> forall pair, pair ∈ items -> p pair = q pair := by
  constructor
  · intro h pair hpair
    obtain ⟨i, hi, rfl⟩ := List.getElem_of_mem hpair
    have hmem : i ∈ placesOf items p <-> i ∈ placesOf items q := by rw [h]
    simp only [placesOf, List.mem_filter, List.mem_range, hi, true_and,
      List.getElem?_eq_getElem hi, Option.any_some] at hmem
    exact Bool.eq_iff_iff.mpr hmem
  · intro h
    refine List.filter_congr ?_
    intro i hi
    have hi : i < items.length := List.mem_range.mp hi
    rw [List.getElem?_eq_getElem hi, Option.any_some]
    exact h _ (List.getElem_mem hi)

theorem placesOf_none (items : List Pair) : placesOf items (fun _ => false) = [] := by
  refine List.filter_eq_nil_iff.mpr ?_
  intro i _
  cases items[i]? with
  | none | some pair => exact Bool.false_ne_true

theorem ownerOf_eq_some_iff {items : List Pair}
    (h : items.Pairwise PairLe) {payloadHash owner : String} :
    ownerOf items payloadHash = some owner <->
      (payloadHash, owner) ∈ items ∧
        forall other, (payloadHash, other) ∈ items -> other ≤ owner := by
  have hlargest : forall last, ownerOf items payloadHash = some last ->
      (payloadHash, last) ∈ items ∧
        forall other, (payloadHash, other) ∈ items -> other ≤ last := by
    intro last hlast
    obtain ⟨later, earlier, hitems, hlater⟩ := List.lookup_eq_some_iff.mp hlast
    have hsorted := List.pairwise_reverse.mpr h
    rw [hitems] at hsorted
    have hbelow := (List.pairwise_cons.mp (List.pairwise_append.mp hsorted).right.left).left
    have hmem : forall pair, pair ∈ items <->
        pair ∈ later ∨ pair = (payloadHash, last) ∨ pair ∈ earlier := fun pair => by
      rw [← List.mem_reverse, hitems, List.mem_append, List.mem_cons]
    refine ⟨(hmem _).mpr (Or.inr (Or.inl rfl)), fun other hother => ?_⟩
    rcases (hmem _).mp hother with hnew | hsame | hold
    · exact absurd rfl (bne_iff_ne.mp (hlater _ hnew))
    · exact (congrArg Prod.snd hsame).le
    · rcases Prod.Lex.toLex_le_toLex.mp (hbelow _ hold) with hlt | hle
      · exact absurd hlt (lt_irrefl _)
      · exact hle.right
  refine ⟨hlargest owner, fun howner => ?_⟩
  cases hlast : ownerOf items payloadHash with
  | none =>
    have hnone := List.lookup_eq_none_iff.mp hlast _ (List.mem_reverse.mpr howner.left)
    exact absurd rfl (bne_iff_ne.mp hnone)
  | some last =>
    have hall := hlargest last hlast
    exact congrArg some ((howner.right last hall.left).antisymm (hall.right owner howner.left))

/-!
# Texts
-/

def leafText (pair : Pair) : Bytes :=
  encodeUtf8 pair.1 ++ ([0x7C] ++ encodeUtf8 pair.2)

def textsOf (items : List Pair) : List Bytes :=
  (items.insertionSort PairLe).map leafText

/-- The tree of the texts.  Nothing is hashed like one empty text. -/
def treeOf (items : List Pair) : PairedTree Bytes :=
  if items = [] then .leaf []
  else (foldLevels PairedTree.node items.length
    ((textsOf items).map PairedTree.leaf)).headD (.leaf [])

section

variable {items : List Pair}

theorem length_textsOf (items : List Pair) : (textsOf items).length = items.length := by
  rw [textsOf, List.length_map, List.length_insertionSort]

theorem mem_textsOf_iff {text : Bytes} :
    text ∈ textsOf items <-> exists pair, pair ∈ items ∧ leafText pair = text := by
  rw [textsOf, List.mem_map]
  simp only [(List.perm_insertionSort PairLe items).mem_iff]

theorem length_foldLevels_textsOf {alpha : Type} (join : alpha -> alpha -> alpha)
    (f : Bytes -> alpha) (h : items ≠ []) :
    (foldLevels join items.length ((textsOf items).map f)).length = 1 := by
  apply length_foldLevels
  · intro hnil
    have hlength := congrArg List.length hnil
    rw [List.length_map, length_textsOf] at hlength
    exact h (List.length_eq_zero_iff.mp hlength)
  · rw [List.length_map, length_textsOf]
    exact Nat.le_succ _

theorem mem_leaves_treeOf_iff {text : Bytes} (h : items ≠ []) :
    text ∈ (treeOf items).leaves <-> text ∈ textsOf items := by
  have hjoin : (exists t, t ∈ foldLevels PairedTree.node items.length
        ((textsOf items).map PairedTree.leaf) ∧ text ∈ t.leaves) <->
      exists t, t ∈ (textsOf items).map PairedTree.leaf ∧ text ∈ t.leaves :=
    exists_foldLevels_iff (fun _ _ => List.mem_append) items.length _
  rcases List.length_eq_one_iff.mp (length_foldLevels_textsOf PairedTree.node .leaf h) with
    ⟨top, htop⟩
  rw [htop] at hjoin
  unfold treeOf
  rw [if_neg h, htop]
  simpa [PairedTree.leaves] using hjoin

theorem leafText_ne_nil (pair : Pair) : leafText pair ≠ [] := by
  unfold leafText
  simp

end

/-- If no two different pairs have one text, inventories with the same tree of texts hold
the same pairs. -/
theorem mem_of_treeOf_eq {first second : List Pair} (hsame : treeOf first = treeOf second)
    (htexts : forall p q, p ∈ first -> q ∈ second -> leafText p = leafText q -> p = q)
    {pair : Pair} (hpair : pair ∈ first) : pair ∈ second := by
  have htext : leafText pair ∈ (treeOf second).leaves := by
    rw [← hsame, mem_leaves_treeOf_iff (List.ne_nil_of_mem hpair)]
    exact mem_textsOf_iff.mpr ⟨pair, hpair, rfl⟩
  by_cases hnil : second = []
  · unfold treeOf at htext
    rw [if_pos hnil] at htext
    exact absurd (List.mem_singleton.mp htext) (leafText_ne_nil pair)
  · rcases mem_textsOf_iff.mp ((mem_leaves_treeOf_iff hnil).mp htext) with ⟨q, hq, heq⟩
    rw [htexts pair q hpair hq heq.symm]
    exact hq

/-!
# Trees
-/

class TreeHash where
  sha256 : Bytes -> Bytes

section Trees

variable [TreeHash]

def leafHash (payloadHash ownerNodeId : String) : Bytes :=
  TreeHash.sha256 (leafText (payloadHash, ownerNodeId))

def internalHash (left right : Bytes) : Bytes :=
  TreeHash.sha256 (left ++ right)

structure MerkleTree where
  items : List Pair
  root : Bytes

/-- As many levels as there are leaves are enough. -/
def MerkleTree.fromInventory (items : List Pair) : MerkleTree :=
  if items = [] then { items := [], root := internalHash [] [] }
  else
    { items := items.insertionSort PairLe
      root := (foldLevels internalHash items.length
        ((items.insertionSort PairLe).map (fun pair => leafHash pair.1 pair.2))).headD [] }

def MerkleTree.diff (t other : MerkleTree) : List Nat :=
  if t.root = other.root then []
  else placesOf t.items (fun pair => ownerOf other.items pair.1 ≠ some pair.2)

theorem items_fromInventory (inventory : List Pair) :
    (MerkleTree.fromInventory inventory).items = inventory.insertionSort PairLe := by
  unfold MerkleTree.fromInventory
  split
  next hnil =>
      subst hnil
      rfl
  · rfl

theorem mem_items {inventory : List Pair} {pair : Pair} :
    pair ∈ (MerkleTree.fromInventory inventory).items <-> pair ∈ inventory := by
  rw [items_fromInventory]
  exact (List.perm_insertionSort PairLe inventory).mem_iff

/-!
# Equal roots
-/

def hashTree : PairedTree Bytes -> Bytes
  | .leaf text => TreeHash.sha256 text
  | .node left right => internalHash (hashTree left) (hashTree right)

/-- At every place of both trees the hash tells apart what is hashed there.  Where one of
them ends, its text does not have the digest of the other tree. -/
def ToldApart : PairedTree Bytes -> PairedTree Bytes -> Prop
  | .leaf text, .leaf other => TreeHash.sha256 text = TreeHash.sha256 other -> text = other
  | .node left right, .node left' right' =>
    (hashTree (.node left right) = hashTree (.node left' right') ->
      hashTree left ++ hashTree right = hashTree left' ++ hashTree right') ∧
    ToldApart left left' ∧ ToldApart right right'
  | s, t => hashTree s ≠ hashTree t

section

variable {width : Nat} (hwidth : forall data, (TreeHash.sha256 data).length = width)

include hwidth

theorem length_hashTree (t : PairedTree Bytes) : (hashTree t).length = width := by
  cases t with
  | leaf text => exact hwidth text
  | node left right => exact hwidth _

theorem eq_of_hashTree_eq {s t : PairedTree Bytes} (h : ToldApart s t)
    (hroot : hashTree s = hashTree t) : s = t := by
  induction s generalizing t with
  | leaf text =>
    cases t with
    | leaf other => rw [h hroot]
    | node left right => exact absurd hroot h
  | node left right ihleft ihright =>
    cases t with
    | leaf other => exact absurd hroot h
    | node left' right' =>
      have hlength := (length_hashTree hwidth left).trans (length_hashTree hwidth left').symm
      rcases List.append_inj (h.left hroot) hlength with ⟨hl, hr⟩
      rw [ihleft h.right.left hl, ihright h.right.right hr]

end

theorem hashTree_treeOf (items : List Pair) :
    hashTree (treeOf items) = (MerkleTree.fromInventory items).root := by
  unfold treeOf MerkleTree.fromInventory
  split_ifs with hnil
  · rfl
  · have hmap : (foldLevels PairedTree.node items.length
          ((textsOf items).map PairedTree.leaf)).map hashTree =
        foldLevels internalHash items.length
          (((textsOf items).map PairedTree.leaf).map hashTree) :=
      map_foldLevels (fun _ _ => rfl) items.length _
    rw [List.map_map] at hmap
    have hlevel : (textsOf items).map (hashTree ∘ PairedTree.leaf) =
        (items.insertionSort PairLe).map (fun pair => leafHash pair.1 pair.2) := by
      rw [textsOf, List.map_map]
      rfl
    rw [hlevel] at hmap
    show _ = (foldLevels internalHash items.length _).headD []
    rw [← hmap]
    exact (headD_map hashTree (List.ne_nil_of_length_eq_add_one
      (length_foldLevels_textsOf PairedTree.node .leaf hnil)) _ _).symm

theorem root_eq_iff {width : Nat} (hwidth : forall data, (TreeHash.sha256 data).length = width)
    {first second : List Pair} (h : ToldApart (treeOf first) (treeOf second)) :
    (MerkleTree.fromInventory first).root = (MerkleTree.fromInventory second).root <->
      treeOf first = treeOf second := by
  rw [← hashTree_treeOf, ← hashTree_treeOf]
  exact ⟨eq_of_hashTree_eq hwidth h, congrArg hashTree⟩

/-!
# When a comparison is exact
-/

def missingPlaces (t : MerkleTree) (inventory : List Pair) : List Nat :=
  placesOf t.items (fun pair => pair ∉ inventory)

theorem diff_eq_missing_of_root_eq {first second : List Pair}
    (hroot : (MerkleTree.fromInventory first).root =
      (MerkleTree.fromInventory second).root) :
    (MerkleTree.fromInventory first).diff (MerkleTree.fromInventory second) =
        missingPlaces (MerkleTree.fromInventory first) second <->
      forall pair, pair ∈ first -> pair ∈ second := by
  unfold MerkleTree.diff missingPlaces
  rw [if_pos hroot, ← placesOf_none (MerkleTree.fromInventory first).items, placesOf_eq_iff]
  constructor
  · intro h pair hpair
    by_contra hmissing
    exact absurd (h pair (mem_items.mpr hpair)) (by simp [hmissing])
  · intro h pair hpair
    simp [h pair (mem_items.mp hpair)]

theorem diff_eq_missing_of_root_ne {first second : List Pair}
    (hroot : (MerkleTree.fromInventory first).root ≠
      (MerkleTree.fromInventory second).root) :
    (MerkleTree.fromInventory first).diff (MerkleTree.fromInventory second) =
        missingPlaces (MerkleTree.fromInventory first) second <->
      forall pair, pair ∈ first -> pair ∈ second ->
        forall owner, (pair.1, owner) ∈ second -> owner ≤ pair.2 := by
  have hsorted := List.pairwise_insertionSort PairLe second
  rw [← items_fromInventory] at hsorted
  unfold MerkleTree.diff missingPlaces
  rw [if_neg hroot, placesOf_eq_iff]
  constructor
  · intro h pair hpair hmem owner hothers
    have hagree := h pair (mem_items.mpr hpair)
    have howner : ownerOf (MerkleTree.fromInventory second).items pair.1 = some pair.2 := by
      by_contra hother
      simp [hother, hmem] at hagree
    exact ((ownerOf_eq_some_iff hsorted).mp howner).right owner (mem_items.mpr hothers)
  · intro h pair hpair
    by_cases hmem : pair ∈ second
    · have hlast := h pair (mem_items.mp hpair) hmem
      have howner : ownerOf (MerkleTree.fromInventory second).items pair.1 = some pair.2 :=
        (ownerOf_eq_some_iff hsorted).mpr
          ⟨mem_items.mpr hmem, fun owner hothers => hlast owner (mem_items.mp hothers)⟩
      simp [howner, hmem]
    · have howner : ownerOf (MerkleTree.fromInventory second).items pair.1 ≠ some pair.2 := by
        intro hsome
        exact hmem (mem_items.mp ((ownerOf_eq_some_iff hsorted).mp hsome).left)
      simp [howner, hmem]

end Trees

section Exact

@[reducible] def TreeHash.folded : TreeHash where
  sha256 data :=
    littleEndian 32 (data.foldl (fun sum byte => (sum * 257 + byte.toNat + 1) % (2 ^ 255 - 19)) 7)

attribute [local instance] TreeHash.folded

def threeItems : List Pair :=
  [("g", "a"), ("h", "b"), ("i", "c")]

def twoItems : List Pair :=
  [("h", "b"), ("g", "a")]

theorem threeItems_toldApart : ToldApart (treeOf threeItems) (treeOf twoItems) := by
  have hthree : treeOf threeItems = .node
      (.node (.leaf (leafText ("g", "a"))) (.leaf (leafText ("h", "b"))))
      (.node (.leaf (leafText ("i", "c"))) (.leaf (leafText ("i", "c")))) := by
    decide +kernel
  have htwo : treeOf twoItems =
      .node (.leaf (leafText ("g", "a"))) (.leaf (leafText ("h", "b"))) := by
    decide +kernel
  rw [hthree, htwo]
  exact ⟨by decide +kernel, show hashTree _ ≠ hashTree _ by decide +kernel,
    show hashTree _ ≠ hashTree _ by decide +kernel⟩

end Exact

section Sample

@[reducible] def TreeHash.identity : TreeHash where
  sha256 data := data

attribute [local instance] TreeHash.identity

end Sample

end Transport
end Membrane
