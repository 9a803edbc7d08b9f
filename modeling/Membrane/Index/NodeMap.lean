import Membrane.Index.Removal

/-!
# The nodes of the interval tree as objects

The node map of the source points at nodes, and a removal may move a fragment from one
node to another.  Here every node has an address, and the map has addresses for values.
Leaving the addresses out gives the tree of the index, whose map has the start of the
node in place of the node: the two do the same in every run.
-/

namespace Membrane
namespace Index

open Foundation Data

inductive LinkedNode where
  | none
  | node (address : Nat) (fragment : Fragment) (start stop maxEnd : Int) (height : Nat)
      (left right : LinkedNode)

namespace LinkedNode

def height : LinkedNode -> Nat
  | none => 0
  | node _ _ _ _ _ height _ _ => height

def maxEnd : LinkedNode -> Int
  | none => 0
  | node _ _ _ _ maxEnd _ _ _ => maxEnd

def isNone : LinkedNode -> Bool
  | none => true
  | node _ _ _ _ _ _ _ _ => false

def update (address : Nat) (fragment : Fragment) (start stop : Int)
    (left right : LinkedNode) : LinkedNode :=
  node address fragment start stop (max stop (max left.maxEnd right.maxEnd))
    (1 + max left.height right.height) left right

def rotateRight : LinkedNode -> LinkedNode
  | node a f start stop _ _ (node xa xf xstart xstop _ _ xleft xright) right =>
    update xa xf xstart xstop xleft (update a f start stop xright right)
  | t => t

def rotateLeft : LinkedNode -> LinkedNode
  | node a f start stop _ _ left (node ya yf ystart ystop _ _ yleft yright) =>
    update ya yf ystart ystop (update a f start stop left yleft) yright
  | t => t

def balanceFactor : LinkedNode -> Int
  | none => 0
  | node _ _ _ _ _ _ left right => (left.height : Int) - right.height

def rebalance : LinkedNode -> LinkedNode
  | none => none
  | node a f start stop maxEnd height left right =>
    if 1 < (node a f start stop maxEnd height left right).balanceFactor then
      if left.balanceFactor < 0 then
        rotateRight (node a f start stop maxEnd height left.rotateLeft right)
      else rotateRight (node a f start stop maxEnd height left right)
    else if (node a f start stop maxEnd height left right).balanceFactor < -1 then
      if 0 < right.balanceFactor then
        rotateLeft (node a f start stop maxEnd height left right.rotateRight)
      else rotateLeft (node a f start stop maxEnd height left right)
    else node a f start stop maxEnd height left right

def insertNode (address : Nat) (fragment : Fragment) : LinkedNode -> LinkedNode
  | none =>
    node address fragment fragment.identity.tokenSpan.1 fragment.identity.tokenSpan.2
      fragment.identity.tokenSpan.2 1 none none
  | node a f start stop _ _ left right =>
    if fragment.identity.tokenSpan.1 < start ∨
        (fragment.identity.tokenSpan.1 = start ∧
          fragment.payloadHash < f.payloadHash) then
      rebalance (update a f start stop (insertNode address fragment left) right)
    else rebalance (update a f start stop left (insertNode address fragment right))

def minValueNode : LinkedNode -> Option (Fragment × Int × Int)
  | none => Option.none
  | node _ f start stop _ _ left _ => left.minValueNode.or (some (f, start, stop))

/-- A node with two children stays where it is, with the fragment of its successor. -/
def removeNode : LinkedNode -> Int -> String -> LinkedNode
  | none, _, _ => none
  | node a f start stop _ _ left right, targetStart, contentHash =>
    if contentHash = f.payloadHash then
      if left.isNone then right
      else
        match right.minValueNode with
        | Option.none => left
        | some (successor, successorStart, successorStop) =>
          rebalance (update a successor successorStart successorStop left
            (right.removeNode successorStart successor.payloadHash))
    else if targetStart < start ∨ (targetStart = start ∧ contentHash < f.payloadHash) then
      rebalance (update a f start stop (left.removeNode targetStart contentHash) right)
    else rebalance (update a f start stop left (right.removeNode targetStart contentHash))

/-- The nodes that a removal gives another fragment, with the start they get. -/
def rewritten : LinkedNode -> Int -> String -> List (Nat × Fragment × Int)
  | none, _, _ => []
  | node a f start _ _ _ left right, targetStart, contentHash =>
    if contentHash = f.payloadHash then
      if left.isNone then []
      else
        match right.minValueNode with
        | Option.none => []
        | some (successor, successorStart, _) =>
          (a, successor, successorStart) ::
            right.rewritten successorStart successor.payloadHash
    else if targetStart < start ∨ (targetStart = start ∧ contentHash < f.payloadHash) then
      left.rewritten targetStart contentHash
    else right.rewritten targetStart contentHash

def startAt : LinkedNode -> Nat -> Option Int
  | none, _ => Option.none
  | node a _ start _ _ _ left right, address =>
    if a = address then some start
    else (left.startAt address).or (right.startAt address)

def cells : LinkedNode -> List (Nat × Fragment)
  | none => []
  | node a f _ _ _ _ left right => left.cells ++ (a, f) :: right.cells

def erase : LinkedNode -> IntervalNode
  | none => IntervalNode.none
  | node _ f start stop maxEnd height left right =>
    IntervalNode.node f start stop maxEnd height left.erase right.erase

end LinkedNode

structure LinkedTree where
  root : LinkedNode
  nodeMap : Dict String Nat
  next : Nat

namespace LinkedTree

def create : LinkedTree where
  root := LinkedNode.none
  nodeMap := Dict.empty
  next := 0

def insert (t : LinkedTree) (f : Fragment) : LinkedTree where
  root := t.root.insertNode t.next f
  nodeMap := t.nodeMap.set f.payloadHash t.next
  next := t.next + 1

def removeFrom (t : LinkedTree) (start : Int) (contentHash : String) : LinkedTree where
  root := t.root.removeNode start contentHash
  nodeMap := ((t.root.rewritten start contentHash).foldl
    (fun found entry => found.set entry.2.1.payloadHash entry.1) t.nodeMap).erase contentHash
  next := t.next

/-- The map has no address outside of the tree, so the start is always found. -/
def remove (t : LinkedTree) (contentHash : String) : Bool × LinkedTree :=
  match (t.nodeMap.get? contentHash).bind t.root.startAt with
  | none => (false, t)
  | some start => (true, t.removeFrom start contentHash)

end LinkedTree

/-!
# Leaving the addresses out
-/

variable {contentHash : String}

namespace LinkedNode

section Erase

variable (t left right : LinkedNode) (a : Nat) (f : Fragment) (start stop : Int)

theorem height_erase : t.erase.height = t.height := by
  cases t <;> rfl

theorem maxEnd_erase : t.erase.maxEnd = t.maxEnd := by
  cases t <;> rfl

theorem isNone_erase : t.erase.isNone = t.isNone := by
  cases t <;> rfl

theorem erase_update :
    (update a f start stop left right).erase =
      IntervalNode.update f start stop left.erase right.erase := by
  unfold IntervalNode.update
  rw [height_erase, height_erase, maxEnd_erase, maxEnd_erase]
  rfl

theorem balanceFactor_erase : t.erase.balanceFactor = t.balanceFactor := by
  cases t with
  | none => rfl
  | node a f start stop maxEnd height left right =>
    show (left.erase.height : Int) - right.erase.height = _
    rw [height_erase, height_erase]
    rfl

theorem erase_rotateRight : t.rotateRight.erase = t.erase.rotateRight := by
  cases t with
  | none => rfl
  | node a f start stop maxEnd height left right =>
    cases left with
    | none => rfl
    | node xa xf xstart xstop xmaxEnd xheight xleft xright =>
      show (update xa xf xstart xstop xleft (update a f start stop xright right)).erase = _
      rw [erase_update, erase_update]
      rfl

theorem erase_rotateLeft : t.rotateLeft.erase = t.erase.rotateLeft := by
  cases t with
  | none => rfl
  | node a f start stop maxEnd height left right =>
    cases right with
    | none => rfl
    | node ya yf ystart ystop ymaxEnd yheight yleft yright =>
      show (update ya yf ystart ystop (update a f start stop left yleft) yright).erase = _
      rw [erase_update, erase_update]
      rfl

theorem erase_node (maxEnd : Int) (height : Nat) :
    (node a f start stop maxEnd height left right).erase =
      IntervalNode.node f start stop maxEnd height left.erase right.erase := rfl

theorem erase_rebalance : t.rebalance.erase = t.erase.rebalance := by
  cases t with
  | none => rfl
  | node a f start stop maxEnd height left right =>
    have hfactor := balanceFactor_erase (node a f start stop maxEnd height left right)
    rw [erase_node] at hfactor ⊢
    rw [rebalance, IntervalNode.rebalance, hfactor, balanceFactor_erase left,
      balanceFactor_erase right]
    split_ifs
    · rw [erase_rotateRight, erase_node, erase_rotateLeft]
    · rw [erase_rotateRight, erase_node]
    · rw [erase_rotateLeft, erase_node, erase_rotateRight]
    · rw [erase_rotateLeft, erase_node]
    · rfl

theorem erase_insertNode (address : Nat) :
    (t.insertNode address f).erase = t.erase.insertNode f := by
  induction t with
  | none => rfl
  | node a g start stop maxEnd height left right ihl ihr =>
    rw [erase_node, insertNode, IntervalNode.insertNode]
    split_ifs
    · rw [erase_rebalance, erase_update, ihl]
    · rw [erase_rebalance, erase_update, ihr]

theorem minValueNode_erase : t.erase.minValueNode = t.minValueNode := by
  induction t with
  | none => rfl
  | node a f start stop maxEnd height left right ihl ihr =>
    show left.erase.minValueNode.or _ = _
    rw [ihl]
    rfl

theorem erase_removeNode (contentHash : String) :
    (t.removeNode start contentHash).erase = t.erase.removeNode start contentHash := by
  induction t generalizing start contentHash with
  | none => rfl
  | node a f nodeStart stop maxEnd height left right ihl ihr =>
    rw [erase_node, removeNode, IntervalNode.removeNode, isNone_erase, minValueNode_erase]
    split_ifs
    · rfl
    · cases right.minValueNode with
      | none => rfl
      | some successor =>
        rw [erase_rebalance, erase_update, ihr]
    · rw [erase_rebalance, erase_update, ihl]
    · rw [erase_rebalance, erase_update, ihr]

theorem registered_erase (contentHash : String) :
    t.erase.registered start contentHash =
      (t.rewritten start contentHash).map (fun entry => (entry.2.1.payloadHash, entry.2.2)) := by
  induction t generalizing start contentHash with
  | none => rfl
  | node a f nodeStart stop maxEnd height left right ihl ihr =>
    rw [erase_node, rewritten, IntervalNode.registered, isNone_erase, minValueNode_erase]
    split_ifs
    · rfl
    · cases right.minValueNode with
      | none => rfl
      | some successor =>
        show _ :: right.erase.registered _ _ = _ :: List.map _ _
        rw [ihr]
    · exact ihl _ _
    · exact ihr _ _

/-!
# What the nodes hold
-/

theorem cells_update :
    (update a f start stop left right).cells = left.cells ++ (a, f) :: right.cells := rfl

theorem cells_rotateRight : t.rotateRight.cells = t.cells := by
  cases t with
  | none => rfl
  | node a f start stop maxEnd height left right =>
    cases left with
    | none => rfl
    | node xa xf xstart xstop xmaxEnd xheight xleft xright =>
      simp [rotateRight, cells, cells_update]

theorem cells_rotateLeft : t.rotateLeft.cells = t.cells := by
  cases t with
  | none => rfl
  | node a f start stop maxEnd height left right =>
    cases right with
    | none => rfl
    | node ya yf ystart ystop ymaxEnd yheight yleft yright =>
      simp [rotateLeft, cells, cells_update]

theorem cells_node (maxEnd : Int) (height : Nat) :
    (node a f start stop maxEnd height left right).cells =
      left.cells ++ (a, f) :: right.cells := rfl

theorem cells_rebalance : t.rebalance.cells = t.cells := by
  cases t with
  | none => rfl
  | node a f start stop maxEnd height left right =>
    rw [rebalance]
    split_ifs
    · rw [cells_rotateRight, cells_node, cells_rotateLeft, cells_node]
    · rw [cells_rotateRight]
    · rw [cells_rotateLeft, cells_node, cells_rotateRight, cells_node]
    · rw [cells_rotateLeft]
    · rfl

theorem cells_insertNode_perm (address : Nat) :
    (t.insertNode address f).cells.Perm ((address, f) :: t.cells) := by
  induction t with
  | none => exact List.Perm.refl _
  | node a g start stop maxEnd height left right ihl ihr =>
    rw [insertNode]
    split_ifs
    · rw [cells_rebalance]
      exact ihl.append_right _
    · rw [cells_rebalance]
      have hright : ((a, g) :: (right.insertNode address f).cells).Perm
          ((a, g) :: (address, f) :: right.cells) := ihr.cons _
      exact ((hright.trans (List.Perm.swap _ _ _)).append_left left.cells).trans
        List.perm_middle

theorem toList_erase : t.erase.toList = t.cells.map Prod.snd := by
  induction t with
  | none => rfl
  | node a f start stop maxEnd height left right ihl ihr =>
    rw [cells_node, List.map_append, List.map_cons, ← ihl, ← ihr]
    rfl

end Erase

theorem minValueNode_eq_none {t : LinkedNode} (h : t.minValueNode = Option.none) :
    t = none := by
  cases t with
  | none => rfl
  | node a f start stop maxEnd height left right =>
    unfold minValueNode at h
    cases hleft : left.minValueNode with
    | none | some first =>
      rw [hleft] at h
      exact (nomatch h)

variable {start : Int} {cell : Nat × Fragment} {entry : Nat × Fragment × Int}

theorem mem_cells_removeNode {t : LinkedNode} (h : cell ∈ t.cells)
    (hhash : cell.2.payloadHash ≠ contentHash)
    (hmoved : forall entry, entry ∈ t.rewritten start contentHash ->
      entry.2.1.payloadHash ≠ cell.2.payloadHash) :
    cell ∈ (t.removeNode start contentHash).cells := by
  induction t generalizing start contentHash with
  | none => exact h
  | node a f nodeStart stop maxEnd height left right ihl ihr =>
    rw [rewritten] at hmoved
    rw [removeNode]
    rw [cells_node, List.mem_append, List.mem_cons] at h
    split_ifs at hmoved ⊢ with hfound hleft hless
    · rcases h with h | rfl | h
      · cases left with
        | none => exact absurd h List.not_mem_nil
        | node _ _ _ _ _ _ _ _ => cases hleft
      · exact absurd hfound.symm hhash
      · exact h
    · cases hmin : right.minValueNode with
      | none =>
        rcases h with h | rfl | h
        · exact h
        · exact absurd hfound.symm hhash
        · rw [minValueNode_eq_none hmin] at h
          exact absurd h List.not_mem_nil
      | some successor =>
        rw [hmin] at hmoved
        rw [cells_rebalance, cells_update, List.mem_append, List.mem_cons]
        rcases h with h | rfl | h
        · exact Or.inl h
        · exact absurd hfound.symm hhash
        · refine Or.inr (Or.inr (ihr h ?_ ?_))
          · exact fun heq => hmoved _ List.mem_cons_self heq.symm
          · exact fun entry hentry => hmoved entry (List.mem_cons_of_mem _ hentry)
    · rw [cells_rebalance, cells_update, List.mem_append, List.mem_cons]
      rcases h with h | h
      · exact Or.inl (ihl h hhash hmoved)
      · exact Or.inr h
    · rw [cells_rebalance, cells_update, List.mem_append, List.mem_cons]
      rcases h with h | h | h
      · exact Or.inl h
      · exact Or.inr (Or.inl h)
      · exact Or.inr (Or.inr (ihr h hhash hmoved))

theorem mem_cells_of_rewritten {t : LinkedNode} (h : entry ∈ t.rewritten start contentHash) :
    (entry.1, entry.2.1) ∈ (t.removeNode start contentHash).cells := by
  induction t generalizing start contentHash with
  | none => exact absurd h List.not_mem_nil
  | node a f nodeStart stop maxEnd height left right ihl ihr =>
    rw [rewritten] at h
    rw [removeNode]
    split_ifs at h ⊢ with hfound hleft hless
    · exact absurd h List.not_mem_nil
    · split at h
      · exact absurd h List.not_mem_nil
      · rw [cells_rebalance, cells_update, List.mem_append, List.mem_cons]
        rcases List.mem_cons.mp h with rfl | h
        · exact Or.inr (Or.inl rfl)
        · exact Or.inr (Or.inr (ihr h))
    · rw [cells_rebalance, cells_update, List.mem_append]
      exact Or.inl (ihl h)
    · rw [cells_rebalance, cells_update, List.mem_append, List.mem_cons]
      exact Or.inr (Or.inr (ihr h))

def addresses (t : LinkedNode) : List Nat :=
  t.cells.map Prod.fst

theorem addresses_node (a : Nat) (f : Fragment) (start stop maxEnd : Int) (height : Nat)
    (left right : LinkedNode) :
    (node a f start stop maxEnd height left right).addresses =
      left.addresses ++ a :: right.addresses := by
  unfold addresses
  rw [cells_node, List.map_append, List.map_cons]

theorem addresses_rebalance (t : LinkedNode) : t.rebalance.addresses = t.addresses := by
  unfold addresses
  rw [cells_rebalance]

theorem mem_addresses {t : LinkedNode} (h : cell ∈ t.cells) : cell.1 ∈ t.addresses :=
  List.mem_map_of_mem h

theorem addresses_removeNode (t : LinkedNode) (start : Int) (contentHash : String) :
    (t.removeNode start contentHash).addresses.Sublist t.addresses := by
  induction t generalizing start contentHash with
  | none => exact List.Sublist.refl _
  | node a f nodeStart stop maxEnd height left right ihl ihr =>
    rw [removeNode, addresses_node]
    split_ifs
    · exact (List.sublist_cons_self _ _).trans (List.sublist_append_right _ _)
    · cases right.minValueNode with
      | none => exact List.sublist_append_left _ _
      | some successor =>
        rw [addresses_rebalance, update, addresses_node]
        exact (List.Sublist.refl _).append ((ihr _ _).cons_cons _)
    · rw [addresses_rebalance, update, addresses_node]
      exact (ihl _ _).append (List.Sublist.refl _)
    · rw [addresses_rebalance, update, addresses_node]
      exact (List.Sublist.refl _).append ((ihr _ _).cons_cons _)

/-!
# The starts of the nodes
-/

theorem start_of_minValueNode {t : LinkedNode} {d : Nat} (ht : t.erase.Avl d)
    {first : Fragment × Int × Int} (h : t.minValueNode = some first) :
    first.2.1 = first.1.identity.tokenSpan.1 := by
  rw [← minValueNode_erase, ht.minValueNode] at h
  cases hlist : t.erase.toList with
  | nil =>
    rw [hlist] at h
    exact (nomatch h)
  | cons f rest =>
    rw [hlist] at h
    cases h
    rfl

theorem start_of_rewritten {t : LinkedNode} {d : Nat} (ht : t.erase.Avl d)
    (h : entry ∈ t.rewritten start contentHash) :
    entry.2.2 = entry.2.1.identity.tokenSpan.1 := by
  induction t generalizing d start contentHash with
  | none => exact absurd h List.not_mem_nil
  | node a f nodeStart stop maxEnd height left right ihl ihr =>
    rw [erase_node] at ht
    obtain ⟨_, ⟨b, hleft⟩, ⟨c, hright⟩⟩ := ht.of_node
    rw [rewritten] at h
    split_ifs at h
    · exact absurd h List.not_mem_nil
    · split at h
      · exact absurd h List.not_mem_nil
      · rename_i hmin
        rcases List.mem_cons.mp h with rfl | h
        · exact start_of_minValueNode hright hmin
        · exact ihr hright h
    · exact ihl hleft h
    · exact ihr hright h

theorem startAt_of_not_mem {t : LinkedNode} {address : Nat} (h : ¬ address ∈ t.addresses) :
    t.startAt address = Option.none := by
  induction t with
  | none => rfl
  | node a f start stop maxEnd height left right ihl ihr =>
    rw [addresses_node, List.mem_append, List.mem_cons] at h
    have hleft : ¬ address ∈ left.addresses := fun hmem => h (Or.inl hmem)
    have hself : a ≠ address := fun heq => h (Or.inr (Or.inl heq.symm))
    have hright : ¬ address ∈ right.addresses := fun hmem => h (Or.inr (Or.inr hmem))
    rw [startAt, if_neg hself, ihl hleft, ihr hright]
    rfl

theorem startAt_of_mem {t : LinkedNode} {d : Nat} (ht : t.erase.Avl d)
    (hnodup : t.addresses.Nodup) (h : cell ∈ t.cells) :
    t.startAt cell.1 = some cell.2.identity.tokenSpan.1 := by
  induction t generalizing d with
  | none => exact absurd h List.not_mem_nil
  | node a f start stop maxEnd height left right ihl ihr =>
    rw [erase_node] at ht
    obtain ⟨hstart, ⟨b, hleft⟩, ⟨c, hright⟩⟩ := ht.of_node
    rw [addresses_node, List.nodup_append, List.nodup_cons] at hnodup
    obtain ⟨hnodupLeft, ⟨hself, hnodupRight⟩, hcross⟩ := hnodup
    rw [cells_node, List.mem_append, List.mem_cons] at h
    rw [startAt]
    rcases h with h | rfl | h
    · have hne : a ≠ cell.1 := fun heq =>
        hcross cell.1 (mem_addresses h) a List.mem_cons_self heq.symm
      rw [if_neg hne, ihl hleft hnodupLeft h]
      rfl
    · rw [if_pos rfl, hstart]
    · have hne : a ≠ cell.1 := fun heq => hself (heq ▸ mem_addresses h)
      have hnotLeft : ¬ cell.1 ∈ left.addresses := fun hmem =>
        hcross cell.1 hmem cell.1 (List.mem_cons_of_mem _ (mem_addresses h)) rfl
      rw [if_neg hne, startAt_of_not_mem hnotLeft, ihr hright hnodupRight h]
      rfl

end LinkedNode

/-!
# The same run with and without addresses
-/

theorem mem_foldl_set {alpha beta : Type} {entries : List alpha} {key : alpha -> String}
    {value : alpha -> beta} {found : Dict String beta} (h : contentHash ∈ found) :
    contentHash ∈ entries.foldl (fun found entry => found.set (key entry) (value entry))
      found := by
  induction entries generalizing found with
  | nil => exact h
  | cons first rest ih => exact ih ((Dict.mem_set _ _ _ _).mpr (Or.inr h))

namespace LinkedTree

/-- The map has the hash at a node that holds it, and the other map has the start of the
node, or neither map has it. -/
def Entered (l : LinkedTree) (t : Tree) (contentHash : String) : Prop :=
  (l.nodeMap.get? contentHash = none ∧ t.nodeMap.get? contentHash = none) ∨
    exists cell, cell ∈ l.root.cells ∧ cell.2.payloadHash = contentHash ∧
      l.nodeMap.get? contentHash = some cell.1 ∧
      t.nodeMap.get? contentHash = some cell.2.identity.tokenSpan.1

structure Follows (l : LinkedTree) (t : Tree) : Prop where
  root : l.root.erase = t.root
  balanced : exists d, t.root.Avl d
  sorted : t.root.Sorted
  fresh : forall address, address ∈ l.root.addresses -> address < l.next
  nodup : l.root.addresses.Nodup
  entered : forall contentHash, l.Entered t contentHash

theorem create_follows : create.Follows Tree.create where
  root := rfl
  balanced := ⟨0, IntervalNode.Avl.none⟩
  sorted := List.Pairwise.nil
  fresh := fun _ h => absurd h List.not_mem_nil
  nodup := List.nodup_nil
  entered := fun contentHash =>
    Or.inl ⟨Dict.get?_empty contentHash, Dict.get?_empty contentHash⟩

variable {l : LinkedTree} {t : Tree}

section

variable (h : l.Follows t)

include h

theorem Follows.insert (f : Fragment) :
    (l.insert f).Follows (t.insert f) := by
  obtain ⟨d, hd⟩ := h.balanced
  obtain ⟨c, hc, _⟩ := hd.insertNode f
  have hcells := l.root.cells_insertNode_perm f l.next
  have haddresses : (l.insert f).root.addresses.Perm (l.next :: l.root.addresses) :=
    hcells.map Prod.fst
  refine ⟨?_, ⟨c, hc⟩, h.sorted.insertNode hd f, ?_, ?_, ?_⟩
  · show (l.root.insertNode l.next f).erase = t.root.insertNode f
    rw [LinkedNode.erase_insertNode, h.root]
  · intro address hmem
    rcases List.mem_cons.mp (haddresses.mem_iff.mp hmem) with rfl | hmem
    · exact Nat.lt_succ_self _
    · exact (h.fresh address hmem).trans (Nat.lt_succ_self _)
  · refine haddresses.nodup_iff.mpr (List.nodup_cons.mpr ⟨?_, h.nodup⟩)
    exact fun hmem => absurd (h.fresh _ hmem) (lt_irrefl _)
  · intro contentHash
    by_cases hhash : f.payloadHash = contentHash
    · refine Or.inr ⟨(l.next, f), hcells.mem_iff.mpr List.mem_cons_self, hhash, ?_, ?_⟩
      · rw [← hhash]
        exact Dict.get?_set_self _ _ _
      · rw [← hhash]
        exact Dict.get?_set_self _ _ _
    · have hl : (l.insert f).nodeMap.get? contentHash = l.nodeMap.get? contentHash :=
        Dict.get?_set_of_ne _ _ (Ne.symm hhash)
      have ht : (t.insert f).nodeMap.get? contentHash = t.nodeMap.get? contentHash :=
        Dict.get?_set_of_ne _ _ (Ne.symm hhash)
      unfold Entered
      rw [hl, ht]
      rcases h.entered contentHash with hnone | ⟨cell, hcell, hrest⟩
      · exact Or.inl hnone
      · exact Or.inr ⟨cell, hcells.mem_iff.mpr (List.mem_cons_of_mem _ hcell), hrest⟩

theorem Follows.remove_cases (contentHash : String) :
    (l.nodeMap.get? contentHash = none ∧ t.nodeMap.get? contentHash = none ∧
      l.remove contentHash = (false, l) ∧ t.remove contentHash = (false, t)) ∨
    exists start, t.root.Holds start contentHash ∧
      l.remove contentHash = (true, l.removeFrom start contentHash) ∧
      t.remove contentHash = (true, t.removeFrom start contentHash) := by
  obtain ⟨d, hd⟩ := h.balanced
  unfold remove Tree.remove
  rcases h.entered contentHash with ⟨hl, ht⟩ | ⟨cell, hcell, hhash, hl, ht⟩
  · rw [hl, ht]
    exact Or.inl ⟨rfl, rfl, rfl, rfl⟩
  · have hstart : l.root.startAt cell.1 = some cell.2.identity.tokenSpan.1 := by
      rw [← h.root] at hd
      exact LinkedNode.startAt_of_mem hd h.nodup hcell
    have hmem : cell.2 ∈ t.root.toList := by
      rw [← h.root, LinkedNode.toList_erase]
      exact List.mem_map_of_mem hcell
    rw [hl, ht, Option.bind_some, hstart]
    exact Or.inr ⟨_, ⟨cell.2, hmem, rfl, hhash⟩, rfl, rfl⟩

theorem Follows.entered_removeFrom (start : Int) (contentHash other : String) :
    (l.removeFrom start contentHash).Entered (t.removeFrom start contentHash) other := by
  obtain ⟨d, hd⟩ := h.balanced
  unfold Entered removeFrom Tree.removeFrom
  rw [← h.root] at hd ⊢
  rw [LinkedNode.registered_erase]
  by_cases hsame : other = contentHash
  · rw [hsame]
    exact Or.inl ⟨Dict.get?_erase_self _ _, Dict.get?_erase_self _ _⟩
  · rw [Dict.get?_erase_of_ne _ hsame, Dict.get?_erase_of_ne _ hsame]
    rw [List.foldl_map, Dict.get?_foldl_set, Dict.get?_foldl_set]
    cases hfound : (l.root.rewritten start contentHash).reverse.find?
      (fun entry => entry.2.1.payloadHash = other) with
    | none =>
      rcases h.entered other with hnone | ⟨cell, hcell, hhash, hrest⟩
      · exact Or.inl hnone
      · refine Or.inr ⟨cell, LinkedNode.mem_cells_removeNode hcell ?_ ?_, hhash, hrest⟩
        · rw [hhash]
          exact hsame
        · rw [hhash]
          simpa using hfound
    | some entry =>
      have hentry := List.mem_reverse.mp (List.mem_of_find?_eq_some hfound)
      have hhash : entry.2.1.payloadHash = other := by simpa using List.find?_some hfound
      exact Or.inr ⟨(entry.1, entry.2.1), LinkedNode.mem_cells_of_rewritten hentry, hhash, rfl,
        congrArg some (LinkedNode.start_of_rewritten hd hentry)⟩

theorem Follows.removeFrom (start : Int) (contentHash : String) :
    (l.removeFrom start contentHash).Follows (t.removeFrom start contentHash) := by
  obtain ⟨d, hd⟩ := h.balanced
  obtain ⟨c, hc, _⟩ := hd.removeNode start contentHash
  have hsub := LinkedNode.addresses_removeNode l.root start contentHash
  refine ⟨?_, ⟨c, hc⟩, h.sorted.removeNode hd start contentHash, ?_, ?_,
    h.entered_removeFrom start contentHash⟩
  · show (l.root.removeNode start contentHash).erase = t.root.removeNode start contentHash
    rw [LinkedNode.erase_removeNode, h.root]
  · exact fun address hmem => h.fresh address (hsub.subset hmem)
  · exact h.nodup.sublist hsub

theorem Follows.remove (contentHash : String) :
    (l.remove contentHash).1 = (t.remove contentHash).1 ∧
      (l.remove contentHash).2.Follows (t.remove contentHash).2 := by
  rcases h.remove_cases contentHash with ⟨_, _, hl, ht⟩ | ⟨start, _, hl, ht⟩
  · rw [hl, ht]
    exact ⟨rfl, h⟩
  · rw [hl, ht]
    exact ⟨rfl, h.removeFrom start contentHash⟩

end

end LinkedTree

end Index
end Membrane
