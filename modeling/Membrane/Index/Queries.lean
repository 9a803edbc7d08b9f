import Membrane.Index.Index

/-!
# Queries of the index

The exact part answers by payload hash, the semantic part in order of insertion
(every fragment scores the same), and the interval tree by overlap with a span or
by distance from a position.  The tree skips subtrees by the starts of the spans
and by the largest end; in a tree built by insertions it skips nothing it should
return.
-/

namespace Membrane
namespace Index

open Foundation Data

namespace IntervalNode

def isNone : IntervalNode -> Bool
  | none => true
  | node _ _ _ _ _ _ _ => false

def findOverlapping (start stop : Int) : IntervalNode -> List Fragment
  | none => []
  | node f nodeStart nodeStop _ _ left right =>
    (if left.isNone = false ∧ start ≤ left.maxEnd then left.findOverlapping start stop
      else []) ++
    ((if nodeStart ≤ stop ∧ start ≤ nodeStop then [f] else []) ++
      (if nodeStart ≤ stop then right.findOverlapping start stop else []))

/-- A fragment is listed once for a close start behind, and once for a close end before. -/
def findAdjacent (position maxGap : Int) : IntervalNode -> List Fragment
  | none => []
  | node f start stop _ _ left right =>
    (if 0 ≤ start - position ∧ start - position ≤ maxGap then [f] else []) ++
    ((if 0 ≤ position - stop ∧ position - stop ≤ maxGap then [f] else []) ++
    ((if left.isNone = false ∧ position - maxGap ≤ left.maxEnd then
        left.findAdjacent position maxGap else []) ++
      (if start ≤ position + maxGap then right.findAdjacent position maxGap else [])))

end IntervalNode

namespace IndexSystem

variable (x : IndexSystem)

def exactLookup (contentHash : String) : Option IndexEntry :=
  x.exacts.entries.get? contentHash

/-- Every fragment scores zero.  A negative number leaves out that many at the end. -/
def semanticLookup (k : Int) : List Fragment :=
  if 0 ≤ k then x.semantic.fragments.take k.toNat
  else x.semantic.fragments.take (x.semantic.fragments.length - (-k).toNat)

def positionalLookup (start stop : Int) : List Fragment :=
  x.positional.root.findOverlapping start stop

def positionalAdjacent (position maxGap : Int) : List Fragment :=
  x.positional.root.findAdjacent position maxGap

end IndexSystem

/-!
# The fragments of a tree
-/

variable {t : IntervalNode} {f : Fragment} {fragments : List Fragment}

namespace IntervalNode

def toList : IntervalNode -> List Fragment
  | none => []
  | node f _ _ _ _ left right => left.toList ++ f :: right.toList

@[simp] theorem toList_rotateRight (t : IntervalNode) : t.rotateRight.toList = t.toList := by
  cases t with
  | none => rfl
  | node f start stop maxEnd height left right =>
    cases left with
    | none => rfl
    | node xf xstart xstop xmaxEnd xheight xleft xright =>
      simp [rotateRight, update, toList]

@[simp] theorem toList_rotateLeft (t : IntervalNode) : t.rotateLeft.toList = t.toList := by
  cases t with
  | none => rfl
  | node f start stop maxEnd height left right =>
    cases right with
    | none => rfl
    | node yf ystart ystop ymaxEnd yheight yleft yright =>
      simp [rotateLeft, update, toList]

@[simp] theorem toList_rebalance (t : IntervalNode) : t.rebalance.toList = t.toList := by
  cases t with
  | none => rfl
  | node f start stop maxEnd height left right =>
    rw [rebalance]
    split_ifs <;> simp [toList]

theorem toList_insertNode_perm (f : Fragment) (t : IntervalNode) :
    (t.insertNode f).toList.Perm (f :: t.toList) := by
  induction t with
  | none => exact List.Perm.refl _
  | node g start stop maxEnd height left right ihl ihr =>
    unfold insertNode
    split_ifs
    · rw [toList_rebalance]
      exact ihl.append_right _
    · rw [toList_rebalance]
      have hright : (g :: (right.insertNode f).toList).Perm (g :: f :: right.toList) :=
        ihr.cons g
      exact ((hright.trans (List.Perm.swap f g _)).append_left left.toList).trans
        List.perm_middle

theorem mem_insertNode (f g : Fragment) (t : IntervalNode) :
    g ∈ (t.insertNode f).toList <-> g = f ∨ g ∈ t.toList := by
  rw [(toList_insertNode_perm f t).mem_iff, List.mem_cons]

/-!
# Search trees
-/

def Search : IntervalNode -> Prop
  | none => True
  | node f start stop maxEnd _ left right =>
    start = f.identity.tokenSpan.1 ∧ stop = f.identity.tokenSpan.2 ∧
      (forall g, g ∈ left.toList -> g.identity.tokenSpan.1 ≤ start) ∧
      (forall g, g ∈ right.toList -> start ≤ g.identity.tokenSpan.1) ∧
      (forall g, g ∈ left.toList ++ f :: right.toList ->
        g.identity.tokenSpan.2 ≤ maxEnd) ∧
      left.Search ∧ right.Search

theorem Search.stop_le_maxEnd (h : t.Search) {g : Fragment} (hg : g ∈ t.toList) :
    g.identity.tokenSpan.2 ≤ t.maxEnd := by
  cases t with
  | none => cases hg
  | node f start stop maxEnd height left right =>
    exact h.right.right.right.right.left g hg

theorem search_update {start stop : Int} {left right : IntervalNode}
    (hstart : start = f.identity.tokenSpan.1) (hstop : stop = f.identity.tokenSpan.2)
    (hbelow : forall g, g ∈ left.toList -> g.identity.tokenSpan.1 ≤ start)
    (habove : forall g, g ∈ right.toList -> start ≤ g.identity.tokenSpan.1) (hleft : left.Search)
    (hright : right.Search) : (update f start stop left right).Search := by
  refine ⟨hstart, hstop, hbelow, habove, ?_, hleft, hright⟩
  intro g hg
  rcases List.mem_append.mp hg with hg | hg
  · have := hleft.stop_le_maxEnd hg
    omega
  · rcases List.mem_cons.mp hg with rfl | hg
    · omega
    · have := hright.stop_le_maxEnd hg
      omega

theorem Search.rotateRight (h : t.Search) : t.rotateRight.Search := by
  cases t with
  | none => exact h
  | node f start stop maxEnd height left right =>
    cases left with
    | none => exact h
    | node xf xstart xstop xmaxEnd xheight xleft xright =>
      rcases h with ⟨hstart, hstop, hbelow, habove, _, hleft, hright⟩
      rcases hleft with ⟨hxstart, hxstop, hxbelow, hxabove, _, hxleft, hxright⟩
      have hx : xstart ≤ start := by
        rw [hxstart]
        exact hbelow xf (List.mem_append_right _ List.mem_cons_self)
      apply search_update hxstart hxstop hxbelow
      · intro g hg
        rcases List.mem_append.mp hg with hg | hg
        · exact hxabove g hg
        · rcases List.mem_cons.mp hg with rfl | hg
          · omega
          · exact hx.trans (habove g hg)
      · exact hxleft
      · apply search_update hstart hstop
        · intro g hg
          exact hbelow g (List.mem_append_right _ (List.mem_cons_of_mem _ hg))
        · exact habove
        · exact hxright
        · exact hright

theorem Search.rotateLeft (h : t.Search) : t.rotateLeft.Search := by
  cases t with
  | none => exact h
  | node f start stop maxEnd height left right =>
    cases right with
    | none => exact h
    | node yf ystart ystop ymaxEnd yheight yleft yright =>
      rcases h with ⟨hstart, hstop, hbelow, habove, _, hleft, hright⟩
      rcases hright with ⟨hystart, hystop, hybelow, hyabove, _, hyleft, hyright⟩
      have hy : start ≤ ystart := by
        rw [hystart]
        exact habove yf (List.mem_append_right _ List.mem_cons_self)
      apply search_update hystart hystop
      · intro g hg
        rcases List.mem_append.mp hg with hg | hg
        · exact (hbelow g hg).trans hy
        · rcases List.mem_cons.mp hg with rfl | hg
          · omega
          · exact hybelow g hg
      · exact hyabove
      · apply search_update hstart hstop hbelow
        · intro g hg
          exact habove g (List.mem_append_left _ hg)
        · exact hleft
        · exact hyleft
      · exact hyright

theorem Search.replace {start stop maxEnd : Int} {height : Nat}
    {left right left' right' : IntervalNode}
    (h : (node f start stop maxEnd height left right).Search) (hleft : left'.Search)
    (hright : right'.Search) (hsameLeft : left'.toList = left.toList)
    (hsameRight : right'.toList = right.toList) :
    (node f start stop maxEnd height left' right').Search := by
  rcases h with ⟨hstart, hstop, hbelow, habove, hmax, _, _⟩
  refine ⟨hstart, hstop, ?_, ?_, ?_, hleft, hright⟩
  · rw [hsameLeft]
    exact hbelow
  · rw [hsameRight]
    exact habove
  · rw [hsameLeft, hsameRight]
    exact hmax

theorem Search.rebalance (h : t.Search) : t.rebalance.Search := by
  cases t with
  | none => exact h
  | node f start stop maxEnd height left right =>
    have hleft : left.Search := h.right.right.right.right.right.left
    have hright : right.Search := h.right.right.right.right.right.right
    rw [IntervalNode.rebalance]
    split_ifs
    · exact (h.replace hleft.rotateLeft hright (toList_rotateLeft left) rfl).rotateRight
    · exact h.rotateRight
    · exact (h.replace hleft hright.rotateRight rfl (toList_rotateRight right)).rotateLeft
    · exact h.rotateLeft
    · exact h

theorem Search.insertNode (h : t.Search) (f : Fragment) : (t.insertNode f).Search := by
  induction t with
  | none =>
    refine ⟨rfl, rfl, ?_, ?_, ?_, trivial, trivial⟩
    · intro g hg
      exact absurd hg List.not_mem_nil
    · intro g hg
      exact absurd hg List.not_mem_nil
    · intro g hg
      rw [List.mem_singleton.mp hg]
  | node g start stop maxEnd height left right ihl ihr =>
    rcases h with ⟨hstart, hstop, hbelow, habove, _, hleft, hright⟩
    rw [IntervalNode.insertNode]
    split_ifs with hless
    · apply Search.rebalance
      refine search_update hstart hstop ?_ habove (ihl hleft) hright
      intro x hx
      rcases (mem_insertNode f x left).mp hx with rfl | hx
      · omega
      · exact hbelow x hx
    · apply Search.rebalance
      refine search_update hstart hstop hbelow ?_ hleft (ihr hright)
      intro x hx
      rcases (mem_insertNode f x right).mp hx with rfl | hx
      · omega
      · exact habove x hx

/-!
# Answers of the tree
-/

def overlaps (start stop : Int) (f : Fragment) : Bool :=
  f.identity.tokenSpan.1 ≤ stop ∧ start ≤ f.identity.tokenSpan.2

theorem findOverlapping_eq (h : t.Search) (start stop : Int) :
    t.findOverlapping start stop = t.toList.filter (overlaps start stop) := by
  induction t with
  | none => rfl
  | node f nodeStart nodeStop maxEnd height left right ihl ihr =>
    rcases h with ⟨hstart, hstop, _, habove, _, hleft, hright⟩
    have hl : (if left.isNone = false ∧ start ≤ left.maxEnd then
        left.findOverlapping start stop else []) =
          left.toList.filter (overlaps start stop) := by
      split_ifs with hvisit
      · exact ihl hleft
      · symm
        rw [List.filter_eq_nil_iff]
        intro g hg hover
        have hend := hleft.stop_le_maxEnd hg
        have hbounds := of_decide_eq_true hover
        cases left with
        | none => cases hg
        | node _ _ _ _ _ _ _ => exact hvisit ⟨rfl, by omega⟩
    have hr : (if nodeStart ≤ stop then right.findOverlapping start stop else []) =
        right.toList.filter (overlaps start stop) := by
      split_ifs with hvisit
      · exact ihr hright
      · symm
        rw [List.filter_eq_nil_iff]
        intro g hg hover
        have hbegin := habove g hg
        have hbounds := of_decide_eq_true hover
        omega
    have hf : (if nodeStart ≤ stop ∧ start ≤ nodeStop then [f] else []) =
        [f].filter (overlaps start stop) := by
      rw [hstart, hstop]
      simp [overlaps, List.filter_cons]
    rw [findOverlapping, hl, hr, hf]
    show _ = (left.toList ++ ([f] ++ right.toList)).filter (overlaps start stop)
    rw [List.filter_append, List.filter_append]

def startsNear (position maxGap : Int) (f : Fragment) : Bool :=
  0 ≤ f.identity.tokenSpan.1 - position ∧ f.identity.tokenSpan.1 - position ≤ maxGap

def endsNear (position maxGap : Int) (f : Fragment) : Bool :=
  0 ≤ position - f.identity.tokenSpan.2 ∧ position - f.identity.tokenSpan.2 ≤ maxGap

def adjacent (position maxGap : Int) (fragments : List Fragment) : List Fragment :=
  fragments.filter (startsNear position maxGap) ++ fragments.filter (endsNear position maxGap)

theorem mem_adjacent {position maxGap : Int} :
    f ∈ adjacent position maxGap fragments <->
      f ∈ fragments ∧ (startsNear position maxGap f ∨ endsNear position maxGap f) := by
  rw [adjacent, List.mem_append, List.mem_filter, List.mem_filter]
  exact and_or_left.symm

theorem bounds_of_mem_adjacent {position maxGap : Int}
    (h : f ∈ adjacent position maxGap fragments) :
    f ∈ fragments ∧ position - maxGap ≤ f.identity.tokenSpan.2 ∧
      f.identity.tokenSpan.1 ≤ position + maxGap := by
  rcases mem_adjacent.mp h with ⟨hf, hnear | hnear⟩
  all_goals
    have hspan := f.identity.tokenSpan_valid.right.right
    have := of_decide_eq_true hnear
    exact ⟨hf, by omega⟩

theorem findAdjacent_perm (h : t.Search) (position maxGap : Int) :
    (t.findAdjacent position maxGap).Perm (adjacent position maxGap t.toList) := by
  induction t with
  | none => exact List.Perm.refl _
  | node f start stop maxEnd height left right ihl ihr =>
    rcases h with ⟨hstart, hstop, _, habove, _, hleft, hright⟩
    have hl : (if left.isNone = false ∧ position - maxGap ≤ left.maxEnd then
        left.findAdjacent position maxGap else []).Perm
          (adjacent position maxGap left.toList) := by
      split_ifs with hvisit
      · exact ihl hleft
      · apply List.Perm.of_eq
        symm
        rw [List.eq_nil_iff_forall_not_mem]
        intro g hg
        rcases bounds_of_mem_adjacent hg with ⟨hg, hstops, _⟩
        have hend := hleft.stop_le_maxEnd hg
        cases left with
        | none => cases hg
        | node _ _ _ _ _ _ _ => exact hvisit ⟨rfl, by omega⟩
    have hr : (if start ≤ position + maxGap then right.findAdjacent position maxGap
        else []).Perm (adjacent position maxGap right.toList) := by
      split_ifs with hvisit
      · exact ihr hright
      · apply List.Perm.of_eq
        symm
        rw [List.eq_nil_iff_forall_not_mem]
        intro g hg
        rcases bounds_of_mem_adjacent hg with ⟨hg, _, hstarts⟩
        have hbegin := habove g hg
        omega
    have hs : (if 0 ≤ start - position ∧ start - position ≤ maxGap then [f] else []) =
        [f].filter (startsNear position maxGap) := by
      rw [hstart]
      simp [startsNear, List.filter_cons]
    have he : (if 0 ≤ position - stop ∧ position - stop ≤ maxGap then [f] else []) =
        [f].filter (endsNear position maxGap) := by
      rw [hstop]
      simp [endsNear, List.filter_cons]
    rw [findAdjacent, hs, he, List.perm_iff_count]
    intro a
    have hcl := hl.count_eq a
    have hcr := hr.count_eq a
    have hsplit : (node f start stop maxEnd height left right).toList =
        left.toList ++ ([f] ++ right.toList) := rfl
    rw [hsplit]
    simp only [adjacent, List.filter_append, List.count_append] at hcl hcr ⊢
    omega

end IntervalNode

/-!
# Repeated answers
-/

def Distinct (fragments : List Fragment) : Prop :=
  (fragments.map (fun f => f.payloadHash)).Nodup

theorem Distinct.eq (h : Distinct fragments) {g : Fragment} (hf : f ∈ fragments)
    (hg : g ∈ fragments) (hhash : f.payloadHash = g.payloadHash) : f = g :=
  List.inj_on_of_nodup_map h hf hg hhash

theorem Distinct.sublist {others : List Fragment} (h : Distinct fragments)
    (hsub : List.Sublist others fragments) : Distinct others :=
  List.Nodup.sublist (hsub.map _) h

theorem distinct_of_perm {others : List Fragment} (h : fragments.Perm others) :
    Distinct fragments <-> Distinct others :=
  (h.map _).nodup_iff

namespace IntervalNode

theorem distinct_adjacent_iff (h : Distinct fragments) :
    (forall position maxGap, Distinct (adjacent position maxGap fragments)) <->
      forall f, f ∈ fragments -> f.identity.tokenSpan.1 < f.identity.tokenSpan.2 := by
  constructor
  · intro hall f hf
    have hspan := f.identity.tokenSpan_valid.right.right
    by_contra hsingle
    have hnodup := hall f.identity.tokenSpan.1 0
    rw [Distinct, adjacent, List.map_append] at hnodup
    have hstarts : f ∈ fragments.filter (startsNear f.identity.tokenSpan.1 0) :=
      List.mem_filter.mpr ⟨hf, decide_eq_true (by omega)⟩
    have hends : f ∈ fragments.filter (endsNear f.identity.tokenSpan.1 0) :=
      List.mem_filter.mpr ⟨hf, decide_eq_true (by omega)⟩
    exact (List.disjoint_of_nodup_append hnodup) (List.mem_map_of_mem hstarts)
      (List.mem_map_of_mem hends)
  · intro hlong position maxGap
    rw [Distinct, adjacent, List.map_append]
    apply List.Nodup.append
    · exact h.sublist List.filter_sublist
    · exact h.sublist List.filter_sublist
    · intro hash hstarts hends
      rcases List.mem_map.mp hstarts with ⟨f, hf, hfhash⟩
      rcases List.mem_map.mp hends with ⟨g, hg, hghash⟩
      rcases List.mem_filter.mp hf with ⟨hf, hfnear⟩
      rcases List.mem_filter.mp hg with ⟨hg, hgnear⟩
      have hsame := h.eq hf hg (hfhash.trans hghash.symm)
      rw [hsame] at hfnear
      have hfirst := of_decide_eq_true hfnear
      have hlast := of_decide_eq_true hgnear
      have := hlong g hg
      omega

theorem queries_distinct_iff (h : t.Search) :
    ((forall start stop, Distinct (t.findOverlapping start stop)) ∧
      forall position maxGap, Distinct (t.findAdjacent position maxGap)) <->
      Distinct t.toList ∧
        forall f, f ∈ t.toList -> f.identity.tokenSpan.1 < f.identity.tokenSpan.2 := by
  have hadjacent : (forall position maxGap, Distinct (t.findAdjacent position maxGap)) <->
      forall position maxGap, Distinct (adjacent position maxGap t.toList) :=
    forall_congr' fun position => forall_congr' fun maxGap =>
      distinct_of_perm (findAdjacent_perm h position maxGap)
  rw [hadjacent]
  constructor
  · rintro ⟨hover, hnear⟩
    have hall : t.findOverlapping 0 t.maxEnd = t.toList := by
      rw [findOverlapping_eq h, List.filter_eq_self]
      intro g hg
      have hend := h.stop_le_maxEnd hg
      have hspan := g.identity.tokenSpan_valid
      exact decide_eq_true ⟨hspan.right.right.trans hend, hspan.right.left⟩
    have hdistinct : Distinct t.toList := hall ▸ hover 0 t.maxEnd
    exact ⟨hdistinct, (distinct_adjacent_iff hdistinct).mp hnear⟩
  · rintro ⟨hdistinct, hlong⟩
    constructor
    · intro start stop
      rw [findOverlapping_eq h]
      exact hdistinct.sublist List.filter_sublist
    · exact (distinct_adjacent_iff hdistinct).mpr hlong

end IntervalNode

/-!
# The parts of an index together
-/

namespace IndexSystem

def hashes (x : IndexSystem) : List String :=
  x.semantic.fragments.map (fun f => f.payloadHash)

theorem hashes_insert (x : IndexSystem) (f : Fragment) (locations : Finset String) :
    (x.insert f locations).hashes = x.hashes ++ [f.payloadHash] := by
  show (x.semantic.fragments ++ [f]).map (fun f => f.payloadHash) = _
  rw [List.map_append]
  rfl

structure WellBuilt (x : IndexSystem) : Prop where
  search : x.positional.root.Search
  same : x.positional.root.toList.Perm x.semantic.fragments
  exact : forall h, h ∈ x.exacts.entries <-> h ∈ x.hashes
  entry : forall h e, x.exactLookup h = some e ->
    e.fragment ∈ x.semantic.fragments ∧ e.fragment.payloadHash = h

theorem create_wellBuilt : create.WellBuilt where
  search := trivial
  same := List.Perm.refl _
  exact h := by simp [create, hashes]
  entry h e he := by cases he

variable {x : IndexSystem}

theorem WellBuilt.insert (h : x.WellBuilt) (f : Fragment) (locations : Finset String) :
    (x.insert f locations).WellBuilt where
  search := h.search.insertNode f
  same := ((IntervalNode.toList_insertNode_perm f _).trans (h.same.cons f)).trans
    (List.perm_append_singleton f _).symm
  exact hash := by
    show hash ∈ x.exacts.entries.set f.payloadHash _ <->
      hash ∈ (x.semantic.fragments ++ [f]).map (fun f => f.payloadHash)
    rw [Dict.mem_set, h.exact hash, List.map_append, List.mem_append, List.map_singleton,
      List.mem_singleton]
    exact or_comm
  entry hash e he := by
    change (x.exacts.entries.set f.payloadHash _).get? hash = some e at he
    rw [Dict.get?_set] at he
    split_ifs at he with hhash
    · cases he
      exact ⟨List.mem_append_right _ List.mem_cons_self, hhash.symm⟩
    · have hold := h.entry hash e he
      exact ⟨List.mem_append_left _ hold.left, hold.right⟩

theorem mem_semanticLookup {k : Int} (h : f ∈ x.semanticLookup k) :
    f ∈ x.semantic.fragments := by
  unfold semanticLookup at h
  split_ifs at h
  · exact List.mem_of_mem_take h
  · exact List.mem_of_mem_take h

theorem WellBuilt.mem_positionalAdjacent (h : x.WellBuilt) {position maxGap : Int} :
    f ∈ x.positionalAdjacent position maxGap <->
      f ∈ x.semantic.fragments ∧
        (IntervalNode.startsNear position maxGap f ∨
          IntervalNode.endsNear position maxGap f) := by
  unfold positionalAdjacent
  rw [(IntervalNode.findAdjacent_perm h.search position maxGap).mem_iff,
    IntervalNode.mem_adjacent, h.same.mem_iff]

/-- The three parts hold exactly the given hashes, and no query returns a hash twice. -/
structure Mirrors (x : IndexSystem) (resident : String -> Prop) : Prop where
  exact : forall h, (x.exactLookup h).isSome <-> resident h
  positional : forall h,
    h ∈ x.positional.root.toList.map (fun f => f.payloadHash) <-> resident h
  semantic : forall h, h ∈ x.hashes <-> resident h
  overlapping : forall start stop, Distinct (x.positionalLookup start stop)
  adjacent : forall position maxGap, Distinct (x.positionalAdjacent position maxGap)
  nearest : forall k, Distinct (x.semanticLookup k)

theorem isSome_exactLookup (x : IndexSystem) (hash : String) :
    (x.exactLookup hash).isSome <-> hash ∈ x.exacts.entries := by
  rw [Option.isSome_iff_exists, Dict.mem_iff_exists_get?]
  rfl

theorem nearest_distinct_iff (x : IndexSystem) :
    (forall k, Distinct (x.semanticLookup k)) <-> Distinct x.semantic.fragments := by
  constructor
  · intro h
    have hall := h x.semantic.fragments.length
    rw [semanticLookup, Int.toNat_natCast,
      List.take_length] at hall
    exact hall
  · intro h k
    unfold semanticLookup
    split_ifs
    · exact h.sublist (List.take_sublist _ _)
    · exact h.sublist (List.take_sublist _ _)

/-- In a well built index the three parts follow the resident hashes together. -/
theorem WellBuilt.mirrors_iff (h : x.WellBuilt) (resident : String -> Prop) :
    x.Mirrors resident <->
      (forall hash, hash ∈ x.hashes <-> resident hash) ∧ Distinct x.semantic.fragments ∧
        forall f, f ∈ x.semantic.fragments ->
          f.identity.tokenSpan.1 < f.identity.tokenSpan.2 := by
  constructor
  · intro hm
    have htree := (IntervalNode.queries_distinct_iff h.search).mp
      ⟨hm.overlapping, hm.adjacent⟩
    exact ⟨hm.semantic, x.nearest_distinct_iff.mp hm.nearest,
      fun f hf => htree.right f (h.same.symm.subset hf)⟩
  · rintro ⟨hhashes, hdistinct, hlong⟩
    have htree := (IntervalNode.queries_distinct_iff h.search).mpr
      ⟨(distinct_of_perm h.same).mpr hdistinct, fun f hf => hlong f (h.same.subset hf)⟩
    refine ⟨fun hash => ?_, fun hash => ?_, hhashes, htree.left, htree.right,
      x.nearest_distinct_iff.mpr hdistinct⟩
    · rw [isSome_exactLookup, h.exact hash]
      exact hhashes hash
    · rw [(h.same.map _).mem_iff]
      exact hhashes hash

end IndexSystem

end Index
end Membrane
