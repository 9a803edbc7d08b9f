import Mathlib.Data.Prod.Lex
import Membrane.Index.Queries

/-!
# Removal from the interval tree

A removal descends by the start that the node map has for the hash and takes out the
first node with the hash that it meets.  A node with two children takes over the
fragment of its successor, which is entered in the node map again and is removed from
the right subtree.
-/

namespace Membrane
namespace Index

open Foundation Data

namespace IntervalNode

def minValueNode : IntervalNode -> Option (Fragment × Int × Int)
  | none => Option.none
  | node f start stop _ _ left _ => left.minValueNode.or (some (f, start, stop))

def removeNode : IntervalNode -> Int -> String -> IntervalNode
  | none, _, _ => none
  | node f start stop _ _ left right, targetStart, contentHash =>
    if contentHash = f.payloadHash then
      if left.isNone then right
      else
        match right.minValueNode with
        | Option.none => left
        | some (successor, successorStart, successorStop) =>
          rebalance (update successor successorStart successorStop left
            (right.removeNode successorStart successor.payloadHash))
    else if targetStart < start ∨ (targetStart = start ∧ contentHash < f.payloadHash) then
      rebalance (update f start stop (left.removeNode targetStart contentHash) right)
    else rebalance (update f start stop left (right.removeNode targetStart contentHash))

def registered : IntervalNode -> Int -> String -> List (String × Int)
  | none, _, _ => []
  | node f start _ _ _ left right, targetStart, contentHash =>
    if contentHash = f.payloadHash then
      if left.isNone then []
      else
        match right.minValueNode with
        | Option.none => []
        | some (successor, successorStart, _) =>
          (successor.payloadHash, successorStart) ::
            right.registered successorStart successor.payloadHash
    else if targetStart < start ∨ (targetStart = start ∧ contentHash < f.payloadHash) then
      left.registered targetStart contentHash
    else right.registered targetStart contentHash

end IntervalNode

def Tree.create : Tree where
  root := IntervalNode.none
  nodeMap := Dict.empty

def Tree.removeFrom (t : Tree) (start : Int) (contentHash : String) : Tree where
  root := t.root.removeNode start contentHash
  nodeMap := ((t.root.registered start contentHash).foldl
    (fun found entry => found.set entry.1 entry.2) t.nodeMap).erase contentHash

def Tree.remove (t : Tree) (contentHash : String) : Bool × Tree :=
  match t.nodeMap.get? contentHash with
  | none => (false, t)
  | some start => (true, t.removeFrom start contentHash)

/-!
# Balanced trees
-/

namespace IntervalNode

def spanned (f : Fragment) (left right : IntervalNode) : IntervalNode :=
  update f f.identity.tokenSpan.1 f.identity.tokenSpan.2 left right

inductive Avl : IntervalNode -> Nat -> Prop where
  | none : Avl none 0
  | node (f : Fragment) {left right : IntervalNode} {a b : Nat} (hleft : Avl left a)
      (hright : Avl right b) (hlow : a ≤ b + 1) (hhigh : b ≤ a + 1) :
      Avl (spanned f left right) (1 + max a b)

variable {t left right : IntervalNode} {a b : Nat} {f : Fragment} {start : Int}
  {contentHash : String}

theorem Avl.height_eq (h : Avl t a) : t.height = a := by
  induction h with
  | none => rfl
  | node f hleft hright hlow hhigh ihl ihr =>
    show 1 + max _ _ = _
    rw [ihl, ihr]

theorem Avl.of_node {stop maxEnd : Int} {height d : Nat}
    (h : Avl (IntervalNode.node f start stop maxEnd height left right) d) :
    start = f.identity.tokenSpan.1 ∧ (exists a, Avl left a) ∧ exists b, Avl right b := by
  generalize ht : IntervalNode.node f start stop maxEnd height left right = t at h
  cases h with
  | none => cases ht
  | node g hleft hright hlow hhigh =>
    cases ht
    exact ⟨rfl, ⟨_, hleft⟩, ⟨_, hright⟩⟩

theorem balanceFactor_spanned (f : Fragment) (left right : IntervalNode) :
    (spanned f left right).balanceFactor = (left.height : Int) - right.height := rfl

/-!
# Rotations
-/

theorem rebalance_of_balanced (hlow : ¬ 1 < (spanned f left right).balanceFactor)
    (hhigh : ¬ (spanned f left right).balanceFactor < -1) :
    (spanned f left right).rebalance = spanned f left right := by
  unfold spanned update at hlow hhigh ⊢
  rw [rebalance, if_neg hlow, if_neg hhigh]

theorem rebalance_left_single {x : Fragment} {xleft xright : IntervalNode}
    (h : 1 < (spanned f (spanned x xleft xright) right).balanceFactor)
    (hx : ¬ (spanned x xleft xright).balanceFactor < 0) :
    (spanned f (spanned x xleft xright) right).rebalance =
      spanned x xleft (spanned f xright right) := by
  unfold spanned update at h hx ⊢
  rw [rebalance, if_pos h, if_neg hx]
  rfl

theorem rebalance_left_double {x z : Fragment} {xleft zleft zright : IntervalNode}
    (h : 1 < (spanned f (spanned x xleft (spanned z zleft zright)) right).balanceFactor)
    (hx : (spanned x xleft (spanned z zleft zright)).balanceFactor < 0) :
    (spanned f (spanned x xleft (spanned z zleft zright)) right).rebalance =
      spanned z (spanned x xleft zleft) (spanned f zright right) := by
  unfold spanned update at h hx ⊢
  rw [rebalance, if_pos h, if_pos hx]
  rfl

theorem rebalance_right_single {y : Fragment} {yleft yright : IntervalNode}
    (h : (spanned f left (spanned y yleft yright)).balanceFactor < -1)
    (hy : ¬ 0 < (spanned y yleft yright).balanceFactor) :
    (spanned f left (spanned y yleft yright)).rebalance =
      spanned y (spanned f left yleft) yright := by
  have hlow : ¬ 1 < (spanned f left (spanned y yleft yright)).balanceFactor := by
    omega
  unfold spanned update at h hy hlow ⊢
  rw [rebalance, if_neg hlow, if_pos h, if_neg hy]
  rfl

theorem rebalance_right_double {y z : Fragment} {zleft zright yright : IntervalNode}
    (h : (spanned f left (spanned y (spanned z zleft zright) yright)).balanceFactor < -1)
    (hy : 0 < (spanned y (spanned z zleft zright) yright).balanceFactor) :
    (spanned f left (spanned y (spanned z zleft zright) yright)).rebalance =
      spanned z (spanned f left zleft) (spanned y zright yright) := by
  have hlow :
      ¬ 1 < (spanned f left (spanned y (spanned z zleft zright) yright)).balanceFactor := by
    omega
  unfold spanned update at h hy hlow ⊢
  rw [rebalance, if_neg hlow, if_pos h, if_pos hy]
  rfl

theorem Avl.of_heights {c : Nat} (hleft : Avl left a) (hright : Avl right b) (hlow : a ≤ b + 1)
    (hhigh : b ≤ a + 1) (hc : c = 1 + max a b) : Avl (spanned f left right) c := by
  rw [hc]
  exact Avl.node f hleft hright hlow hhigh

section

variable (f : Fragment) (hleft : Avl left a) (hright : Avl right b)

include hleft hright

/-- The height after a rotation is that of the higher child, or one more. -/
theorem Avl.rebalance_left (hhigh : a = b + 2) :
    exists c, Avl (spanned f left right).rebalance c ∧ (c = a ∨ c = a + 1) := by
  have hfactor : 1 < (spanned f left right).balanceFactor := by
    rw [balanceFactor_spanned, hleft.height_eq, hright.height_eq]
    omega
  cases hleft with
  | none => omega
  | @node x xleft xright p q hxleft hxright hxlow hxhigh =>
    have hx : (spanned x xleft xright).balanceFactor = (p : Int) - q := by
      rw [balanceFactor_spanned, hxleft.height_eq, hxright.height_eq]
    by_cases hneg : (spanned x xleft xright).balanceFactor < 0
    · -- the left child leans to the right, so its right child comes up
      cases hxright with
      | none => omega
      | @node z zleft zright u v hzleft hzright hzlow hzhigh =>
        rw [rebalance_left_double hfactor hneg]
        refine ⟨b + 2, ?_, by omega⟩
        apply Avl.of_heights (a := b + 1) (b := b + 1)
        · exact Avl.of_heights hxleft hzleft (by omega) (by omega) (by omega)
        · exact Avl.of_heights hzright hright (by omega) (by omega) (by omega)
        · omega
        · omega
        · omega
    · rw [rebalance_left_single hfactor hneg]
      refine ⟨1 + max p (1 + max q b), ?_, by omega⟩
      apply Avl.of_heights hxleft (Avl.of_heights hxright hright _ _ rfl)
      · omega
      · omega
      · rfl
      · omega
      · omega

theorem Avl.rebalance_right (hhigh : b = a + 2) :
    exists c, Avl (spanned f left right).rebalance c ∧ (c = b ∨ c = b + 1) := by
  have hfactor : (spanned f left right).balanceFactor < -1 := by
    rw [balanceFactor_spanned, hleft.height_eq, hright.height_eq]
    omega
  cases hright with
  | none => omega
  | @node y yleft yright p q hyleft hyright hylow hyhigh =>
    have hy : (spanned y yleft yright).balanceFactor = (p : Int) - q := by
      rw [balanceFactor_spanned, hyleft.height_eq, hyright.height_eq]
    by_cases hpos : 0 < (spanned y yleft yright).balanceFactor
    · cases hyleft with
      | none => omega
      | @node z zleft zright u v hzleft hzright hzlow hzhigh =>
        rw [rebalance_right_double hfactor hpos]
        refine ⟨a + 2, ?_, by omega⟩
        apply Avl.of_heights (a := a + 1) (b := a + 1)
        · exact Avl.of_heights hleft hzleft (by omega) (by omega) (by omega)
        · exact Avl.of_heights hzright hyright (by omega) (by omega) (by omega)
        · omega
        · omega
        · omega
    · rw [rebalance_right_single hfactor hpos]
      refine ⟨1 + max (1 + max a p) q, ?_, by omega⟩
      apply Avl.of_heights (Avl.of_heights hleft hyleft _ _ rfl) hyright
      · omega
      · omega
      · rfl
      · omega
      · omega

/-- A node whose children differ by at most two is balanced again, and is not higher
than before. -/
theorem Avl.rebalance (hlow : a ≤ b + 2) (hhigh : b ≤ a + 2) :
    exists c, Avl (spanned f left right).rebalance c ∧
      (c = 1 + max a b ∨ (c = max a b ∧ (a = b + 2 ∨ b = a + 2))) := by
  by_cases hleftHigh : a = b + 2
  · obtain ⟨c, hc, hheight⟩ := hleft.rebalance_left f hright hleftHigh
    exact ⟨c, hc, by omega⟩
  · by_cases hrightHigh : b = a + 2
    · obtain ⟨c, hc, hheight⟩ := hleft.rebalance_right f hright hrightHigh
      exact ⟨c, hc, by omega⟩
    · have hfactor : (spanned f left right).balanceFactor = (a : Int) - b := by
        rw [balanceFactor_spanned, hleft.height_eq, hright.height_eq]
      rw [rebalance_of_balanced (by omega) (by omega)]
      exact ⟨1 + max a b, Avl.node f hleft hright (by omega) (by omega), Or.inl rfl⟩

end

/-!
# Insertion and removal keep the balance
-/

theorem insertNode_none (f : Fragment) : none.insertNode f = spanned f none none := by
  have hstop : f.identity.tokenSpan.2 = max f.identity.tokenSpan.2 (max 0 0) := by
    have := f.identity.tokenSpan_valid.right.left
    omega
  show node f _ _ f.identity.tokenSpan.2 1 none none = node f _ _ (max _ (max 0 0)) 1 none none
  rw [← hstop]

theorem insertNode_spanned (f g : Fragment) (left right : IntervalNode) :
    (spanned g left right).insertNode f =
      if f.identity.tokenSpan.1 < g.identity.tokenSpan.1 ∨
          (f.identity.tokenSpan.1 = g.identity.tokenSpan.1 ∧
            f.payloadHash < g.payloadHash) then
        (spanned g (left.insertNode f) right).rebalance
      else (spanned g left (right.insertNode f)).rebalance := rfl

theorem Avl.insertNode (h : Avl t a) (f : Fragment) :
    exists c, Avl (t.insertNode f) c ∧ (c = a ∨ c = a + 1) := by
  induction h with
  | none =>
    rw [insertNode_none]
    exact ⟨1, Avl.of_heights Avl.none Avl.none (by omega) (by omega) rfl, Or.inr rfl⟩
  | node g hleft hright hlow hhigh ihl ihr =>
    rw [insertNode_spanned]
    split
    · obtain ⟨c, hc, hheight⟩ := ihl
      obtain ⟨d, hd, hdheight⟩ := hc.rebalance g hright (by omega) (by omega)
      exact ⟨d, hd, by omega⟩
    · obtain ⟨c, hc, hheight⟩ := ihr
      obtain ⟨d, hd, hdheight⟩ := hleft.rebalance g hc (by omega) (by omega)
      exact ⟨d, hd, by omega⟩

/-- The leftmost node holds the first fragment, and carries its span. -/
theorem Avl.minValueNode (h : Avl t a) :
    t.minValueNode =
      t.toList.head?.map (fun f => (f, f.identity.tokenSpan.1, f.identity.tokenSpan.2)) := by
  induction h with
  | none => rfl
  | @node f left right a b hleft hright hlow hhigh ihl ihr =>
    show left.minValueNode.or (some (f, f.identity.tokenSpan.1, f.identity.tokenSpan.2)) =
      (left.toList ++ f :: right.toList).head?.map _
    rw [ihl]
    cases left.toList with
    | nil | cons head rest => rfl

theorem removeNode_spanned (f : Fragment) (left right : IntervalNode) (start : Int)
    (contentHash : String) :
    (spanned f left right).removeNode start contentHash =
      if contentHash = f.payloadHash then
        if left.isNone then right
        else
          match right.minValueNode with
          | Option.none => left
          | some (successor, successorStart, successorStop) =>
            rebalance (update successor successorStart successorStop left
              (right.removeNode successorStart successor.payloadHash))
      else if start < f.identity.tokenSpan.1 ∨
          (start = f.identity.tokenSpan.1 ∧ contentHash < f.payloadHash) then
        (spanned f (left.removeNode start contentHash) right).rebalance
      else (spanned f left (right.removeNode start contentHash)).rebalance := rfl

theorem toList_eq_nil_iff : t.toList = [] <-> t = none := by
  cases t with
  | none => exact ⟨fun _ => rfl, fun _ => rfl⟩
  | node f start stop maxEnd height left right =>
    constructor
    · intro h
      exact absurd h (List.append_ne_nil_of_right_ne_nil _ (List.cons_ne_nil _ _))
    · intro h
      cases h

/-- The node is replaced by its only child, or takes over the first fragment on its right. -/
theorem Avl.removeNode_found (hright : Avl right b) (left : IntervalNode) (f : Fragment)
    (start : Int) :
    (left = IntervalNode.none ∧
        (spanned f left right).removeNode start f.payloadHash = right) ∨
      (right = IntervalNode.none ∧
        (spanned f left right).removeNode start f.payloadHash = left) ∨
      exists successor rest, right.toList = successor :: rest ∧
        (spanned f left right).removeNode start f.payloadHash =
          (spanned successor left (right.removeNode successor.identity.tokenSpan.1
            successor.payloadHash)).rebalance := by
  rw [removeNode_spanned, if_pos rfl, hright.minValueNode]
  cases left with
  | none => exact Or.inl ⟨rfl, rfl⟩
  | node _ _ _ _ _ _ _ =>
    cases hlist : right.toList with
    | nil => exact Or.inr (Or.inl ⟨toList_eq_nil_iff.mp hlist, rfl⟩)
    | cons successor rest => exact Or.inr (Or.inr ⟨successor, rest, rfl, rfl⟩)

theorem Avl.removeNode (h : Avl t a) (start : Int) (contentHash : String) :
    exists c, Avl (t.removeNode start contentHash) c ∧ (c = a ∨ c + 1 = a) := by
  induction h generalizing start contentHash with
  | none => exact ⟨0, Avl.none, Or.inl rfl⟩
  | @node f left right a b hleft hright hlow hhigh ihl ihr =>
    by_cases hfound : contentHash = f.payloadHash
    · rw [hfound]
      rcases hright.removeNode_found left f start with
        ⟨hnone, heq⟩ | ⟨hnone, heq⟩ | ⟨successor, rest, _, heq⟩
      · rw [heq]
        have ha : 0 = a := by
          rw [hnone] at hleft
          exact hleft.height_eq
        exact ⟨b, hright, by omega⟩
      · rw [heq]
        have hb : 0 = b := by
          rw [hnone] at hright
          exact hright.height_eq
        exact ⟨a, hleft, by omega⟩
      · rw [heq]
        obtain ⟨c, hc, hheight⟩ := ihr successor.identity.tokenSpan.1 successor.payloadHash
        obtain ⟨d, hd, hdheight⟩ := hleft.rebalance successor hc (by omega) (by omega)
        exact ⟨d, hd, by omega⟩
    · rw [removeNode_spanned, if_neg hfound]
      split
      · obtain ⟨c, hc, hheight⟩ := ihl start contentHash
        obtain ⟨d, hd, hdheight⟩ := hc.rebalance f hright (by omega) (by omega)
        exact ⟨d, hd, by omega⟩
      · obtain ⟨c, hc, hheight⟩ := ihr start contentHash
        obtain ⟨d, hd, hdheight⟩ := hleft.rebalance f hc (by omega) (by omega)
        exact ⟨d, hd, by omega⟩

/-!
# The order of a tree
-/

def searchKey (f : Fragment) : Int ×ₗ String :=
  toLex (f.identity.tokenSpan.1, f.payloadHash)

theorem searchKey_lt_iff :
    toLex (start, contentHash) < searchKey f <->
      start < f.identity.tokenSpan.1 ∨
        (start = f.identity.tokenSpan.1 ∧ contentHash < f.payloadHash) :=
  Prod.Lex.toLex_lt_toLex

theorem start_le_of_searchKey_le {g : Fragment} (h : searchKey f ≤ searchKey g) :
    f.identity.tokenSpan.1 ≤ g.identity.tokenSpan.1 := by
  rcases Prod.Lex.toLex_le_toLex.mp h with hless | ⟨hsame, _⟩
  · exact le_of_lt hless
  · exact le_of_eq hsame

def Sorted (t : IntervalNode) : Prop :=
  t.toList.Pairwise (fun f g => searchKey f ≤ searchKey g)

theorem sorted_spanned_iff :
    (spanned f left right).Sorted <->
      left.Sorted ∧ right.Sorted ∧ (forall g, g ∈ left.toList -> searchKey g ≤ searchKey f) ∧
        forall g, g ∈ right.toList -> searchKey f ≤ searchKey g := by
  show (left.toList ++ f :: right.toList).Pairwise _ <-> _
  rw [List.pairwise_append, List.pairwise_cons]
  constructor
  · rintro ⟨hleft, ⟨hright, htail⟩, hcross⟩
    exact ⟨hleft, htail, fun g hg => hcross g hg f List.mem_cons_self, hright⟩
  · rintro ⟨hleft, htail, hbelow, habove⟩
    refine ⟨hleft, ⟨habove, htail⟩, ?_⟩
    intro g hg other hother
    rcases List.mem_cons.mp hother with rfl | hother
    · exact hbelow g hg
    · exact (hbelow g hg).trans (habove other hother)

theorem Sorted.rebalance (h : t.Sorted) : t.rebalance.Sorted := by
  unfold Sorted
  rw [toList_rebalance]
  exact h

theorem Sorted.insertNode (ht : Avl t a) (h : t.Sorted) (f : Fragment) :
    (t.insertNode f).Sorted := by
  induction ht with
  | none => exact List.pairwise_singleton _ _
  | node g hleft hright hlow hhigh ihl ihr =>
    obtain ⟨hl, hr, hbelow, habove⟩ := sorted_spanned_iff.mp h
    rw [insertNode_spanned]
    split
    next hless =>
        apply Sorted.rebalance
        refine sorted_spanned_iff.mpr ⟨ihl hl, hr, ?_, habove⟩
        intro x hx
        rcases (mem_insertNode f x _).mp hx with rfl | hx
        · exact le_of_lt (searchKey_lt_iff.mpr hless)
        · exact hbelow x hx
    next hless =>
        apply Sorted.rebalance
        refine sorted_spanned_iff.mpr ⟨hl, ihr hr, hbelow, ?_⟩
        intro x hx
        rcases (mem_insertNode f x _).mp hx with rfl | hx
        · exact not_lt.mp (fun hlt => hless (searchKey_lt_iff.mp hlt))
        · exact habove x hx

theorem mem_removeNode (h : Avl t a) {g : Fragment}
    (hg : g ∈ (t.removeNode start contentHash).toList) : g ∈ t.toList := by
  induction h generalizing start contentHash g with
  | none => exact hg
  | @node f left right a b hleft hright hlow hhigh ihl ihr =>
    show g ∈ left.toList ++ f :: right.toList
    by_cases hfound : contentHash = f.payloadHash
    · rw [hfound] at hg
      rcases hright.removeNode_found left f start with
        ⟨_, heq⟩ | ⟨_, heq⟩ | ⟨successor, rest, hlist, heq⟩
      · rw [heq] at hg
        exact List.mem_append_right _ (List.mem_cons_of_mem _ hg)
      · rw [heq] at hg
        exact List.mem_append_left _ hg
      · rw [heq, toList_rebalance] at hg
        rcases List.mem_append.mp hg with hg | hg
        · exact List.mem_append_left _ hg
        · refine List.mem_append_right _ (List.mem_cons_of_mem _ ?_)
          rcases List.mem_cons.mp hg with rfl | hg
          · rw [hlist]
            exact List.mem_cons_self
          · exact ihr hg
    · rw [removeNode_spanned, if_neg hfound] at hg
      split at hg
      · rw [toList_rebalance] at hg
        rcases List.mem_append.mp hg with hg | hg
        · exact List.mem_append_left _ (ihl hg)
        · exact List.mem_append_right _ hg
      · rw [toList_rebalance] at hg
        rcases List.mem_append.mp hg with hg | hg
        · exact List.mem_append_left _ hg
        · refine List.mem_append_right _ ?_
          rcases List.mem_cons.mp hg with rfl | hg
          · exact List.mem_cons_self
          · exact List.mem_cons_of_mem _ (ihr hg)

theorem Sorted.removeNode (ht : Avl t a) (h : t.Sorted) (start : Int) (contentHash : String) :
    (t.removeNode start contentHash).Sorted := by
  induction ht generalizing start contentHash with
  | none => exact h
  | @node f left right a b hleft hright hlow hhigh ihl ihr =>
    obtain ⟨hl, hr, hbelow, habove⟩ := sorted_spanned_iff.mp h
    by_cases hfound : contentHash = f.payloadHash
    · rw [hfound]
      rcases hright.removeNode_found left f start with
        ⟨_, heq⟩ | ⟨_, heq⟩ | ⟨successor, rest, hlist, heq⟩
      · rw [heq]
        exact hr
      · rw [heq]
        exact hl
      · rw [heq]
        apply Sorted.rebalance
        have hsuccessor : successor ∈ right.toList := by
          rw [hlist]
          exact List.mem_cons_self
        refine sorted_spanned_iff.mpr ⟨hl, ihr hr _ _, ?_, ?_⟩
        · intro g hg
          exact (hbelow g hg).trans (habove successor hsuccessor)
        · intro g hg
          have hmem := mem_removeNode hright hg
          unfold Sorted at hr
          rw [hlist] at hr hmem
          rcases List.mem_cons.mp hmem with rfl | hmem
          · exact le_refl _
          · exact (List.pairwise_cons.mp hr).left g hmem
    · rw [removeNode_spanned, if_neg hfound]
      split
      · apply Sorted.rebalance
        exact sorted_spanned_iff.mpr ⟨ihl hl _ _, hr,
          fun g hg => hbelow g (mem_removeNode hleft hg), habove⟩
      · apply Sorted.rebalance
        exact sorted_spanned_iff.mpr ⟨hl, ihr hr _ _, hbelow,
          fun g hg => habove g (mem_removeNode hright hg)⟩

/-!
# What a removal takes out
-/

def hashes (t : IntervalNode) : List String :=
  t.toList.map (fun f => f.payloadHash)

theorem hashes_rebalance (t : IntervalNode) : t.rebalance.hashes = t.hashes := by
  unfold hashes
  rw [toList_rebalance]

theorem hashes_spanned (f : Fragment) (left right : IntervalNode) :
    (spanned f left right).hashes = left.hashes ++ f.payloadHash :: right.hashes := by
  show (left.toList ++ f :: right.toList).map _ = _
  rw [List.map_append]
  rfl

def Holds (t : IntervalNode) (start : Int) (contentHash : String) : Prop :=
  exists f, f ∈ t.toList ∧ f.identity.tokenSpan.1 = start ∧ f.payloadHash = contentHash

theorem Holds.descend (hsorted : (spanned f left right).Sorted)
    (hne : contentHash ≠ f.payloadHash) (h : (spanned f left right).Holds start contentHash) :
    (toLex (start, contentHash) < searchKey f ∧ left.Holds start contentHash) ∨
      (¬ toLex (start, contentHash) < searchKey f ∧ right.Holds start contentHash) := by
  obtain ⟨_, _, hbelow, habove⟩ := sorted_spanned_iff.mp hsorted
  obtain ⟨g, hg, hstart, hhash⟩ := h
  have hkey : searchKey g = toLex (start, contentHash) := by
    unfold searchKey
    rw [hstart, hhash]
  rcases List.mem_append.mp hg with hg | hg
  · refine Or.inl ⟨?_, g, hg, hstart, hhash⟩
    refine lt_of_le_of_ne (hkey ▸ hbelow g hg) ?_
    intro heq
    have hparts := toLex_inj.mp heq
    exact hne (congrArg Prod.snd hparts)
  · rcases List.mem_cons.mp hg with rfl | hg
    · exact absurd hhash.symm hne
    · exact Or.inr ⟨not_lt.mpr (hkey ▸ habove g hg), g, hg, hstart, hhash⟩

theorem hashes_removeNode (ht : Avl t a) (h : t.Sorted) (hholds : t.Holds start contentHash) :
    List.Perm t.hashes (contentHash :: (t.removeNode start contentHash).hashes) := by
  induction ht generalizing start contentHash with
  | none =>
    obtain ⟨f, hf, _⟩ := hholds
    exact absurd hf List.not_mem_nil
  | @node f left right a b hleft hright hlow hhigh ihl ihr =>
    obtain ⟨hl, hr, hbelow, habove⟩ := sorted_spanned_iff.mp h
    rw [hashes_spanned]
    by_cases hfound : contentHash = f.payloadHash
    · rw [hfound]
      refine List.perm_middle.trans (List.Perm.cons _ ?_)
      rcases hright.removeNode_found left f start with
        ⟨hnone, heq⟩ | ⟨hnone, heq⟩ | ⟨successor, rest, hlist, heq⟩
      · rw [heq, hnone]
        exact List.Perm.refl _
      · rw [heq, hnone]
        exact List.Perm.of_eq (List.append_nil _)
      · rw [heq, hashes_rebalance, hashes_spanned]
        refine List.Perm.append_left _ (ihr hr ⟨successor, ?_, rfl, rfl⟩)
        rw [hlist]
        exact List.mem_cons_self
    · rw [removeNode_spanned, if_neg hfound]
      rcases hholds.descend h hfound with ⟨hless, hsub⟩ | ⟨hless, hsub⟩
      · rw [if_pos (searchKey_lt_iff.mp hless), hashes_rebalance, hashes_spanned]
        exact (ihl hl hsub).append_right _
      · rw [if_neg (fun hyes => hless (searchKey_lt_iff.mpr hyes)), hashes_rebalance,
          hashes_spanned]
        have hinner : List.Perm (f.payloadHash :: right.hashes)
            (contentHash :: f.payloadHash :: (right.removeNode start contentHash).hashes) :=
          ((ihr hr hsub).cons _).trans (List.Perm.swap _ _ _)
        exact (hinner.append_left _).trans List.perm_middle

end IntervalNode

end Index
end Membrane
