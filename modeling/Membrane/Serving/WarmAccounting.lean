import Mathlib.Algebra.Order.BigOperators.Group.List
import Membrane.Foundation.RefCount
import Membrane.Foundation.Transition
import Membrane.Serving.WarmTier

/-!
# The accounts of the warm tier

The tier keeps the bytes it holds and the number of entries that use each payload.  Both
are adjusted when an entry is listed for the first time and when it is dropped.  A
demotion of a key that is listed already leaves them alone, whatever the size and the
payload of the new fragment are.
-/

namespace Membrane
namespace Serving

open Foundation Data Store

def metaName (key : String) : Option String :=
  match key.toList with
  | 'f' :: 'r' :: 'a' :: 'g' :: '-' :: rest => some (String.ofList rest)
  | _ => none

theorem metaKey_toList (k : String) :
    (metaKey k).toList = 'f' :: 'r' :: 'a' :: 'g' :: '-' :: k.toList := by
  unfold metaKey
  rw [String.toList_append]
  rfl

theorem metaKey_injective {j k : String} (h : metaKey j = metaKey k) : j = k := by
  have hlist : (metaKey j).toList = (metaKey k).toList := by rw [h]
  rw [metaKey_toList, metaKey_toList] at hlist
  simp only [List.cons.injEq, true_and] at hlist
  exact String.toList_inj.mp hlist

theorem metaName_eq_some_iff (key k : String) : metaName key = some k <-> key = metaKey k := by
  constructor
  · intro h
    unfold metaName at h
    split at h
    · rename_i rest hrest
      cases h
      rw [← String.toList_inj, metaKey_toList, hrest, String.toList_ofList]
    · cases h
  · intro h
    unfold metaName
    rw [h, metaKey_toList]
    simp only [String.ofList_toList]

variable {key : String}

theorem ne_metaKey_of_metaName {k : String} (h : metaName key = none) : key ≠ metaKey k := by
  intro hkey
  rw [(metaName_eq_some_iff key k).mpr hkey] at h
  cases h

/-- The fragment's payload is not kept where the metadata of an entry is kept. -/
def Separate (f : Fragment) : Prop :=
  forall ref, f.payloadRef = some ref -> metaName ref = none

namespace WarmTier

variable {sigma : Type}

/-!
# Dropping an entry
-/

def unlist (w : WarmTier sigma) (k : String) (ref : Option String) : WarmTier sigma :=
  match w.index.get? k with
  | none => w
  | some size =>
    ({ w with
      index := w.index.erase k
      bytes := w.bytes - size } : WarmTier sigma).reference ref (-1)

def isShared (w : WarmTier sigma) (k : String) (ref : Option String) : Bool :=
  decide (k ∈ w.index) && decide (0 < w.countAfter ref (-1))

variable {w : WarmTier sigma} {k : String}

theorem reference_eq (w : WarmTier sigma) (ref : Option String) (delta : Int) :
    w.reference ref delta = { w with refs := adjust w.refs ref delta } := by
  cases ref <;> rfl

theorem unlist_of_get? {size : Int} (hk : w.index.get? k = some size) (ref : Option String) :
    w.unlist k ref =
      { w with
        index := w.index.erase k
        bytes := w.bytes - size
        refs := adjust w.refs ref (-1) } := by
  unfold unlist
  rw [hk]
  exact reference_eq _ ref (-1)

theorem unlist_eq (w : WarmTier sigma) (k : String) (ref : Option String) :
    w.unlist k ref =
      { w with
        index := w.index.erase k
        bytes := (w.unlist k ref).bytes
        refs := (w.unlist k ref).refs } := by
  cases hk : w.index.get? k with
  | none =>
    have hsame : w.unlist k ref = w := by
      unfold unlist
      rw [hk]
    rw [hsame, w.index.erase_of_not_mem ((w.index.get?_eq_none_iff k).mp hk)]
  | some size => rw [unlist_of_get? hk]

theorem list_eq (w : WarmTier sigma) (f : Fragment) :
    w.list f =
      { w with
        index := (w.index.erase f.key).set f.key f.payloadSize
        bytes := (w.list f).bytes
        refs := (w.list f).refs } := by
  unfold WarmTier.list
  split_ifs
  · rfl
  · rw [reference_eq]

variable [ContentStore sigma]

def freePayload (w : WarmTier sigma) (ref : Option String) (shared : Bool) :
    WarmTier sigma :=
  match ref with
  | none => w
  | some ref => if shared then w else w.deleteKey ref

theorem freePayload_eq (w : WarmTier sigma) (ref : Option String) (shared : Bool) :
    w.freePayload ref shared =
      { w with store := (w.freePayload ref shared).store } := by
  cases ref with
  | none => rfl
  | some ref => cases shared <;> rfl

def writePayload (store : sigma) (f : Fragment) (payload : Option Bytes) :
    Except String sigma :=
  match f.payloadRef, payload with
  | some ref, some data => ContentStore.put store ref data
  | _, _ => .ok store

variable {store filled : sigma} {f : Fragment} {payload : Option Bytes}

theorem get_writePayload (h : writePayload store f payload = .ok filled)
    (hkey : forall ref, f.payloadRef = some ref -> key ≠ ref) :
    ContentStore.get filled key = ContentStore.get store key := by
  unfold writePayload at h
  split at h
  · rename_i ref data href
    rw [ContentStore.get_put _ _ _ _ h, if_neg (hkey ref href)]
  · cases h
    rfl

variable [FragmentCodec]

/-!
# Opening a tier
-/

def indexStored (w : WarmTier sigma) (key : String) : WarmTier sigma :=
  match metaName key with
  | none => w
  | some contentHash =>
    match w.load contentHash with
    | none => w
    | some f =>
      ({ w with
        index := w.index.set f.key f.payloadSize
        bytes := w.bytes + f.payloadSize } : WarmTier sigma).reference f.payloadRef 1

def openOn (store : sigma) (keys : List String) (capacityBytes : Int) (policy : TierPolicy) :
    WarmTier sigma :=
  (keys.mergeSort (fun a b => decide (a ≤ b))).foldl indexStored
    (create store capacityBytes policy)

/-!
# What the accounts should be
-/

def refOf (w : WarmTier sigma) (k : String) : Option String :=
  (w.load k).bind (fun f => f.payloadRef)

structure Accounted (w : WarmTier sigma) : Prop where
  bytes : w.bytes = w.index.values.sum
  refs : Counts w.refs w.index w.refOf

/-- The accounts, with what keeps them right: sizes are not negative, and no payload is
stored in the place of an entry's metadata. -/
structure Tallied (w : WarmTier sigma) : Prop extends Accounted w where
  sizes : forall k size, w.index.get? k = some size -> 0 ≤ size
  apart : forall k ref, k ∈ w.index -> w.refOf k = some ref -> metaName ref = none

theorem load_congr {w w' : WarmTier sigma} (hstore : w'.store = w.store) (k : String) :
    w'.load k = w.load k := by
  unfold load
  rw [hstore]

theorem refOf_congr {w w' : WarmTier sigma} (hstore : w'.store = w.store) (k : String) :
    w'.refOf k = w.refOf k := by
  unfold refOf
  rw [load_congr hstore]

theorem load_deleteKey (w : WarmTier sigma) (key k : String) :
    (w.deleteKey key).load k = if metaKey k = key then none else w.load k := by
  unfold load deleteKey
  simp only [ContentStore.get_delete]
  split_ifs <;> rfl

theorem refOf_deleteKey {k : String} (w : WarmTier sigma) (h : key ≠ metaKey k) :
    (w.deleteKey key).refOf k = w.refOf k := by
  unfold refOf
  rw [load_deleteKey, if_neg (Ne.symm h)]

/-!
# A drop keeps the accounts
-/

theorem drop_eq (w : WarmTier sigma) (k : String) :
    w.drop k = ((w.unlist k (w.refOf k)).freePayload (w.refOf k)
      (w.isShared k (w.refOf k))).deleteKey (metaKey k) := rfl

theorem refOf_freePayload {ref : Option String} (shared : Bool)
    (hfree : forall used, ref = some used -> metaName used = none) (j : String) :
    (w.freePayload ref shared).refOf j = w.refOf j := by
  cases ref with
  | none => rfl
  | some used =>
    cases shared with
    | true => rfl
    | false => exact w.refOf_deleteKey (ne_metaKey_of_metaName (hfree used rfl))

theorem drop_eq_frame (w : WarmTier sigma) (k : String) :
    w.drop k = { w.unlist k (w.refOf k) with store := (w.drop k).store } := by
  rw [drop_eq, freePayload_eq]
  rfl

theorem refOf_drop (h : w.Tallied) (hk : k ∈ w.index) {j : String} (hj : j ≠ k) :
    (w.drop k).refOf j = w.refOf j := by
  rw [drop_eq, refOf_deleteKey _ (fun hkey => hj (metaKey_injective hkey).symm),
    refOf_freePayload _ (fun used => h.apart k used hk)]
  apply refOf_congr
  rw [unlist_eq]

theorem Tallied.drop (h : w.Tallied) {size : Int} (hk : w.index.get? k = some size) :
    (w.drop k).Tallied ∧ (w.drop k).index = w.index.erase k ∧
      (w.drop k).bytes = w.bytes - size ∧ (w.drop k).capacityBytes = w.capacityBytes := by
  have hmem : k ∈ w.index := Dict.mem_of_get? hk
  have hframe := w.drop_eq_frame k
  rw [unlist_of_get? hk] at hframe
  have hindex : (w.drop k).index = w.index.erase k := by rw [hframe]
  have hbytes : (w.drop k).bytes = w.bytes - size := by rw [hframe]
  have hrefs : (w.drop k).refs = adjust w.refs (w.refOf k) (-1) := by rw [hframe]
  have hrest : forall j, j ∈ w.index.erase k ->
      j ≠ k ∧ j ∈ w.index ∧ (w.drop k).refOf j = w.refOf j := by
    intro j hj
    rcases (w.index.mem_erase k j).mp hj with ⟨hjk, hj⟩
    exact ⟨hjk, hj, refOf_drop h hmem hjk⟩
  refine ⟨⟨⟨?_, ?_⟩, ?_, ?_⟩, hindex, hbytes, by rw [hframe]⟩
  · rw [hbytes, hindex, h.bytes, (Dict.values_perm_of_get? hk).sum_eq, List.sum_cons,
      add_sub_cancel_left]
  · rw [hrefs, hindex]
    exact (h.refs.erase hmem).congr (fun j hj => (hrest j hj).right.right)
  · intro j other hj
    rw [hindex, Dict.get?_erase] at hj
    split_ifs at hj
    exact h.sizes j other hj
  · intro j ref hj href
    rw [hindex] at hj
    rw [(hrest j hj).right.right] at href
    exact h.apart j ref (hrest j hj).right.left href

theorem Tallied.dropAll_overflow {es : List (String × Int)} (h : w.Tallied)
    (hes : w.index.entries = es) (hcapacity : 0 ≤ w.capacityBytes) :
    (dropAll (overflow w.capacityBytes es w.bytes) w).Tallied ∧
      (dropAll (overflow w.capacityBytes es w.bytes) w).bytes ≤ w.capacityBytes ∧
      (dropAll (overflow w.capacityBytes es w.bytes) w).capacityBytes =
        w.capacityBytes := by
  induction es generalizing w with
  | nil =>
    refine ⟨h, ?_, rfl⟩
    have hbytes : w.bytes = (w.index.entries.map Prod.snd).sum := h.bytes
    rw [hes] at hbytes
    show w.bytes ≤ w.capacityBytes
    rw [hbytes]
    exact hcapacity
  | cons e rest ih =>
    rcases e with ⟨oldest, size⟩
    unfold overflow
    split_ifs with hwithin
    · exact ⟨h, hwithin, rfl⟩
    · have holdest : w.index.get? oldest = some size := by
        rw [Dict.get?_eq_some_iff, hes]
        exact List.mem_cons_self
      rcases h.drop holdest with ⟨hdropped, hindex, hbytes, hsame⟩
      have hentries : (w.drop oldest).index.entries = rest := by
        rw [hindex]
        exact Dict.entries_erase_head hes
      have hrest := ih hdropped hentries (by rw [hsame]; exact hcapacity)
      rw [hbytes, hsame] at hrest
      exact hrest

/-!
# Listing an entry
-/

theorem refOf_list (w : WarmTier sigma) (f : Fragment) (j : String) :
    (w.list f).refOf j = w.refOf j := by
  apply refOf_congr
  rw [list_eq]

theorem list_counts (h : Counts w.refs w.index w.refOf) (hself : w.refOf f.key = f.payloadRef) :
    Counts (w.list f).refs (w.list f).index (w.list f).refOf := by
  have hindex : (w.list f).index = (w.index.erase f.key).set f.key f.payloadSize := by
    rw [list_eq]
  rw [hindex]
  by_cases hk : f.key ∈ w.index
  · have hrefs : (w.list f).refs = w.refs := by
      unfold WarmTier.list
      rw [if_pos hk]
    rw [hrefs]
    exact (h.rewrite hk f.payloadSize).congr (fun j _ => w.refOf_list f j)
  · have hrefs : (w.list f).refs = adjust w.refs f.payloadRef 1 := by
      unfold WarmTier.list
      rw [if_neg hk, reference_eq]
    have hlisted := h.insert hk f.payloadSize
    rw [hself] at hlisted
    rw [hrefs, w.index.erase_of_not_mem hk]
    exact hlisted.congr (fun j _ => w.refOf_list f j)

theorem Tallied.list {stored : WarmTier sigma} (h : w.Tallied)
    (hframe : stored = { w with store := store })
    (hothers : forall j, j ≠ f.key -> stored.refOf j = w.refOf j)
    (hself : stored.refOf f.key = f.payloadRef) (hfree : Separate f)
    (hagain : f.key ∈ w.index ->
      w.index.get? f.key = some f.payloadSize ∧ w.refOf f.key = f.payloadRef) :
    (stored.list f).Tallied := by
  have hindex : (stored.list f).index = (w.index.erase f.key).set f.key f.payloadSize := by
    rw [list_eq, hframe]
  have hmem : forall j, j ∈ (stored.list f).index -> j ≠ f.key -> j ∈ w.index := by
    intro j hj hne
    rw [hindex, Dict.mem_set] at hj
    rcases hj with hkey | hj
    · exact absurd hkey hne
    · exact ((w.index.mem_erase f.key j).mp hj).right
  refine ⟨⟨?_, ?_⟩, ?_, ?_⟩
  · rw [hindex, ((w.index.erase f.key).values_set_perm f.key f.payloadSize).sum_eq,
      List.sum_cons, (w.index.erase f.key).erase_of_not_mem (w.index.not_mem_erase f.key)]
    by_cases hk : f.key ∈ w.index
    · have hbytes : (stored.list f).bytes = w.bytes := by
        unfold WarmTier.list
        rw [hframe, if_pos hk]
      rw [hbytes, h.bytes, (Dict.values_perm_of_get? (hagain hk).left).sum_eq, List.sum_cons]
    · have hbytes : (stored.list f).bytes = w.bytes + f.payloadSize := by
        unfold WarmTier.list
        rw [hframe, if_neg hk, reference_eq]
      rw [hbytes, h.bytes, w.index.erase_of_not_mem hk, Int.add_comm]
  · apply list_counts _ hself
    rw [hframe]
    apply h.refs.congr
    intro j hj
    rw [← hframe]
    by_cases hkey : j = f.key
    · rw [hkey] at hj ⊢
      rw [hself, (hagain hj).right]
    · exact hothers j hkey
  · intro j size hj
    rw [hindex, Dict.get?_set] at hj
    split_ifs at hj with hkey
    · cases hj
      exact f.payloadSize_nonneg
    · rw [Dict.get?_erase_of_ne _ hkey] at hj
      exact h.sizes j size hj
  · intro j ref hj href
    rw [refOf_list] at href
    by_cases hkey : j = f.key
    · rw [hkey, hself] at href
      exact hfree ref href
    · rw [hothers j hkey] at href
      exact h.apart j ref (hmem j hj hkey) href

/-!
# What a demotion does
-/

def Keeps (w : WarmTier sigma) (f : Fragment) (payload : Option Bytes) : Prop :=
  selectTier w.policy f ∈ demotedTiers ∧ ¬ (f.payloadRef.isSome ∧ payload.isNone) ∧
    f.payloadSize ≤ w.capacityBytes

def writeMeta (store : sigma) (f : Fragment) : Except String sigma :=
  ContentStore.put store (metaKey f.key) (FragmentCodec.dumps f)

def trim (w : WarmTier sigma) : WarmTier sigma :=
  dropAll (overflow w.capacityBytes w.index.entries w.bytes) w

theorem demote_of_not_keeps (h : ¬ w.Keeps f payload) :
    w.demote f payload = (.ok false, w) := by
  unfold demote
  by_cases htier : selectTier w.policy f ∈ demotedTiers
  · rw [if_neg (not_not.mpr htier)]
    by_cases hbytes : f.payloadRef.isSome ∧ payload.isNone
    · rw [if_pos hbytes]
    · rw [if_neg hbytes, if_pos]
      by_contra hsize
      exact h ⟨htier, hbytes, not_lt.mp hsize⟩
  · rw [if_pos htier]

theorem demote_of_keeps (h : w.Keeps f payload) :
    w.demote f payload =
      match writePayload w.store f payload with
      | .error message => (.error message, w)
      | .ok filled =>
        match writeMeta filled f with
        | .error message => (.error message, { w with store := filled })
        | .ok store =>
          (.ok true,
            (({ w with store := store } : WarmTier sigma).list f).trim) := by
  rcases h with ⟨htier, hbytes, hsize⟩
  unfold demote
  rw [if_neg (not_not.mpr htier), if_neg hbytes, if_neg (not_lt.mpr hsize)]
  unfold writePayload trim
  cases f.payloadRef with
  | none => rfl
  | some ref => cases payload <;> rfl

/-- Everything a demotion can do to the tier. -/
theorem demote_cases (w : WarmTier sigma) (f : Fragment) (payload : Option Bytes) :
    (w.demote f payload).2 = w ∨
    w.Keeps f payload ∧ exists filled, writePayload w.store f payload = .ok filled ∧
      ((w.demote f payload).2 = { w with store := filled } ∨
        exists store, writeMeta filled f = .ok store ∧ (w.demote f payload).2 =
          (({ w with store := store } : WarmTier sigma).list f).trim) := by
  by_cases hkeeps : w.Keeps f payload
  · rw [demote_of_keeps hkeeps]
    cases hfilled : writePayload w.store f payload with
    | error message => exact Or.inl rfl
    | ok filled =>
      refine Or.inr ⟨hkeeps, filled, rfl, ?_⟩
      cases hmeta : writeMeta filled f with
      | error message =>
        simp only [hmeta]
        exact Or.inl trivial
      | ok store =>
        simp only [hmeta]
        exact Or.inr ⟨store, rfl, rfl⟩
  · rw [demote_of_not_keeps hkeeps]
    exact Or.inl rfl

theorem load_writePayload (hfree : Separate f)
    (h : writePayload store f payload = .ok filled) (j : String) :
    ({ w with store := filled } : WarmTier sigma).load j =
      ({ w with store := store } : WarmTier sigma).load j := by
  unfold load
  rw [get_writePayload h (fun ref href hkey =>
    ne_metaKey_of_metaName (hfree ref href) hkey.symm)]

theorem load_writeMeta (h : writeMeta filled f = .ok store) (j : String) :
    ({ w with store := store } : WarmTier sigma).load j =
      if j = f.key then FragmentCodec.loads (FragmentCodec.dumps f)
      else ({ w with store := filled } : WarmTier sigma).load j := by
  unfold load
  rw [ContentStore.get_put _ _ _ _ h]
  by_cases hkey : j = f.key
  · rw [if_pos (congrArg metaKey hkey), if_pos hkey]
    rfl
  · rw [if_neg (fun h => hkey (metaKey_injective h)), if_neg hkey]

/-!
# Calls one after another
-/

inductive TierCall where
  | demote (fragment : Fragment) (payload : Option Bytes)
  | promote (contentHash : String)

def call (w : WarmTier sigma) : TierCall -> WarmTier sigma
  | .demote f payload => (w.demote f payload).2
  | .promote contentHash => (w.promote contentHash).2

/-- A fragment that the tier takes keeps its payload apart from the metadata, and if its
key is listed, its size and its payload are those of the listed entry. -/
def Repeats (w : WarmTier sigma) : TierCall -> Prop
  | .demote f payload => w.Keeps f payload -> Separate f ∧
      (f.key ∈ w.index ->
        w.index.get? f.key = some f.payloadSize ∧ w.refOf f.key = f.payloadRef)
  | .promote _ => True

def ReadsBack : TierCall -> Prop
  | .demote f _ => FragmentCodec.loads (FragmentCodec.dumps f) = some f
  | .promote _ => True

def Accounts (w : WarmTier sigma) (c : TierCall) : Prop :=
  (w.call c).Accounted ∧ forall f payload, c = .demote f payload ->
    (w.call c).bytes ≤ (w.call c).capacityBytes

structure Balanced (w : WarmTier sigma) : Prop extends Tallied w where
  within : w.bytes ≤ w.capacityBytes

section

variable (h : w.Balanced)

include h

theorem Balanced.capacity_nonneg : 0 ≤ w.capacityBytes := by
  have hbytes : 0 ≤ w.bytes := by
    rw [h.bytes]
    apply List.sum_nonneg
    intro size hsize
    rcases (w.index.mem_values_iff size).mp hsize with ⟨k, hk⟩
    exact h.sizes k size hk
  exact hbytes.trans h.within

theorem Balanced.drop (k : String) (hk : k ∈ w.index) :
    (w.drop k).Balanced := by
  rcases (w.index.mem_iff_exists_get? k).mp hk with ⟨size, hsize⟩
  rcases h.toTallied.drop hsize with ⟨htallied, _, hbytes, hcapacity⟩
  have hnonneg := h.sizes k size hsize
  have hwithin := h.within
  refine ⟨htallied, ?_⟩
  omega

theorem Balanced.promote (k : String) : (w.promote k).2.Balanced := by
  unfold WarmTier.promote
  cases w.pending.get? k with
  | some item => exact ⟨⟨⟨h.bytes, h.refs⟩, h.sizes, h.apart⟩, h.within⟩
  | none =>
    by_cases hk : k ∈ w.index
    · simp only [hk, not_true_eq_false, if_false]
      split
      · exact h.drop k hk
      · split_ifs
        · exact h.drop k hk
        · exact h.drop k hk
    · simp only [hk, not_false_eq_true, if_true]
      exact h

theorem Balanced.of_refOf
    (hsame : forall j, ({ w with store := store } : WarmTier sigma).refOf j = w.refOf j) :
    ({ w with store := store } : WarmTier sigma).Balanced where
  bytes := h.bytes
  refs := h.refs.congr (fun j _ => hsame j)
  sizes := h.sizes
  apart j ref hj href := h.apart j ref hj ((hsame j).symm.trans href)
  within := h.within

theorem Balanced.demote (hrepeats : w.Repeats (.demote f payload))
    (hcodec : ReadsBack (.demote f payload)) : (w.demote f payload).2.Balanced := by
  rcases w.demote_cases f payload with hsame | ⟨hkeeps, filled, hfilled, hdone⟩
  · rw [hsame]
    exact h
  rcases hrepeats hkeeps with ⟨hfree, hagain⟩
  have hload : forall j, ({ w with store := filled } : WarmTier sigma).load j = w.load j :=
    load_writePayload hfree hfilled
  rcases hdone with hfailed | ⟨store, hstore, hlisted⟩
  · rw [hfailed]
    apply h.of_refOf
    intro j
    unfold refOf
    rw [hload]
  · have hwritten : forall j, ({ w with store := store } : WarmTier sigma).load j =
        if j = f.key then some f else w.load j := by
      intro j
      rw [load_writeMeta hstore, hload, show FragmentCodec.loads _ = some f from hcodec]
    have htallied : (({ w with store := store } : WarmTier sigma).list f).Tallied := by
      apply h.toTallied.list rfl _ _ hfree hagain
      · intro j hj
        unfold refOf
        rw [hwritten, if_neg hj]
      · unfold refOf
        rw [hwritten, if_pos rfl]
        rfl
    have hcapacity : (({ w with store := store } : WarmTier sigma).list f).capacityBytes =
        w.capacityBytes := by
      rw [list_eq]
    have htrim := htallied.dropAll_overflow rfl (by
      rw [hcapacity]
      exact h.capacity_nonneg)
    rw [hlisted]
    exact ⟨htrim.left, htrim.right.left.trans_eq htrim.right.right.symm⟩

theorem Balanced.call {c : TierCall} (hrepeats : w.Repeats c)
    (hcodec : ReadsBack c) : (w.call c).Balanced := by
  cases c with
  | demote f payload => exact h.demote hrepeats hcodec
  | promote k => exact h.promote k

end

/-!
# Runs from an opened tier
-/

/-- The store lists each key once, and each readable metadata file is the one of its
fragment, whose payload is kept apart from the metadata. -/
structure Tidy (store : sigma) (keys : List String) : Prop where
  nodup : keys.Nodup
  named : forall k f, metaKey k ∈ keys ->
    (ContentStore.get store (metaKey k)).bind FragmentCodec.loads = some f ->
    f.key = k ∧ Separate f

theorem indexStored_eq_list (hkey : metaName key = some k) (hload : w.load k = some f)
    (hnew : ¬ f.key ∈ w.index) : w.indexStored key = w.list f := by
  unfold indexStored WarmTier.list
  simp only [hkey, hload, if_neg hnew]
  rw [reference_eq, reference_eq]
  simp only [w.index.erase_of_not_mem hnew]

theorem foldl_indexStored {keys : List String} (h : w.Tallied) (htidy : Tidy w.store keys)
    (hnew : forall k, metaKey k ∈ keys -> ¬ k ∈ w.index) :
    (keys.foldl indexStored w).Tallied ∧
      (keys.foldl indexStored w).capacityBytes = w.capacityBytes := by
  induction keys generalizing w with
  | nil => exact ⟨h, rfl⟩
  | cons key rest ih =>
    rcases List.nodup_cons.mp htidy.nodup with ⟨hkey, hrest⟩
    have hothers : Tidy w.store rest :=
      ⟨hrest, fun k f hk => htidy.named k f (List.mem_cons_of_mem key hk)⟩
    have hskip : w.indexStored key = w ->
        (rest.foldl indexStored (w.indexStored key)).Tallied ∧
        (rest.foldl indexStored (w.indexStored key)).capacityBytes = w.capacityBytes := by
      intro hsame
      rw [hsame]
      exact ih h hothers (fun k hk => hnew k (List.mem_cons_of_mem key hk))
    rw [List.foldl_cons]
    cases hname : metaName key with
    | none =>
      apply hskip
      unfold indexStored
      rw [hname]
    | some k =>
      have hmeta : key = metaKey k := (metaName_eq_some_iff key k).mp hname
      cases hload : w.load k with
      | none =>
        apply hskip
        unfold indexStored
        simp only [hname, hload]
      | some f =>
        rcases htidy.named k f (by rw [← hmeta]; exact List.mem_cons_self) hload with
          ⟨hfkey, hfree⟩
        have hfresh : ¬ f.key ∈ w.index := by
          rw [hfkey]
          exact hnew k (by rw [← hmeta]; exact List.mem_cons_self)
        have hself : w.refOf f.key = f.payloadRef := by
          unfold refOf
          rw [hfkey, hload]
          rfl
        have hstore : (w.list f).store = w.store := by rw [list_eq]
        have hcapacity : (w.list f).capacityBytes = w.capacityBytes := by rw [list_eq]
        rw [indexStored_eq_list hname hload hfresh, ← hcapacity]
        apply ih
        · exact h.list rfl (fun _ _ => rfl) hself hfree (fun hk => absurd hk hfresh)
        · rw [hstore]
          exact hothers
        · intro j hj hlisted
          rw [list_eq] at hlisted
          rcases ((w.index.erase f.key).mem_set f.key f.payloadSize j).mp hlisted with
            hsame | hold
          · rw [hsame, hfkey, ← hmeta] at hj
            exact hkey hj
          · exact hnew j (List.mem_cons_of_mem key hj)
              ((w.index.mem_erase f.key j).mp hold).right

theorem openOn_tallied {keys : List String} (htidy : Tidy store keys) (capacityBytes : Int)
    (policy : TierPolicy) :
    (openOn store keys capacityBytes policy).Tallied ∧
      (openOn store keys capacityBytes policy).capacityBytes = capacityBytes := by
  have hempty : (create store capacityBytes policy).Tallied :=
    { bytes := rfl
      refs := fun _ => rfl
      sizes := fun k size hk => by cases hk
      apart := fun k ref hk => by cases hk }
  have hperm := List.mergeSort_perm keys (fun a b => decide (a ≤ b))
  apply foldl_indexStored hempty
  · exact ⟨hperm.nodup_iff.mpr htidy.nodup,
      fun k f hk => htidy.named k f (hperm.mem_iff.mp hk)⟩
  · intro k _ hk
    cases hk

/-- In every run over a tidy store, in which each fragment that the tier takes keeps apart
from the metadata and repeats the size and the payload of a listed entry, the accounts
are right after each call and the capacity is kept after each demotion. -/
theorem run_accounts {store : sigma} {keys : List String} {capacityBytes : Int}
    {policy : TierPolicy} (htidy : Tidy store keys)
    (hfits : (openOn store keys capacityBytes policy).bytes ≤ capacityBytes)
    {calls : List TierCall} (hcodec : forall c, c ∈ calls -> ReadsBack c)
    (hrepeats : Along call Repeats (openOn store keys capacityBytes policy) calls) :
    Along call Accounts (openOn store keys capacityBytes policy) calls := by
  rcases openOn_tallied htidy capacityBytes policy with ⟨htallied, hcapacity⟩
  have hboth := hrepeats.and (along_of_mem (fun _ c hc => hcodec c hc) _)
  apply along_of_along Balanced (fun w c hw hc => hw.call hc.left hc.right) _
    ⟨htallied, hfits.trans_eq hcapacity.symm⟩ hboth
  intro w c hw hc
  have hnext := hw.call hc.left hc.right
  exact ⟨hnext.toAccounted, fun _ _ _ => hnext.within⟩

theorem openOn_nil (store : sigma) (capacityBytes : Int) (policy : TierPolicy) :
    openOn store [] capacityBytes policy = create store capacityBytes policy := by
  unfold openOn
  rw [List.mergeSort_nil]
  rfl

end WarmTier

/-!
# A key that is demoted twice
-/

section Sample

@[reducible] def FragmentCodec.among (fragments : List Fragment) : FragmentCodec where
  dumps f := [UInt8.ofNat (fragments.idxOf f)]
  loads data :=
    match data with
    | [position] => fragments[position.toNat]?
    | _ => none

def grownCopy : Fragment :=
  Fragment.plain "a" "h" (some "s") 80 .strong validateTenantId_a nonempty_h

@[reducible] def copiesCodec : FragmentCodec := FragmentCodec.among [firstCopy, grownCopy]

attribute [local instance] copiesCodec

def keepAll : TierPolicy :=
  { hotThreshold := 1, warmThreshold := 1 / 2, archiveThreshold := 0 }

def smallTier : WarmTier InProcessBytes :=
  WarmTier.openOn (InProcessBytes.create none) [] 100 keepAll

theorem smallTier_accounts :
    Along WarmTier.call WarmTier.Accounts smallTier
      [.demote firstCopy (some [1]), .demote firstCopy (some [1]), .promote firstCopy.key] := by
  apply WarmTier.run_accounts
  · exact ⟨List.nodup_nil, fun k f hk => by cases hk⟩
  · rw [WarmTier.openOn_nil]
    decide
  · have hcopy : FragmentCodec.loads (FragmentCodec.dumps firstCopy) = some firstCopy := by
      decide +kernel
    intro c hc
    simp only [List.mem_cons, List.not_mem_nil, or_false] at hc
    rcases hc with hc | hc | hc
    · rw [hc]
      exact hcopy
    · rw [hc]
      exact hcopy
    · rw [hc]
      trivial
  · rw [WarmTier.openOn_nil]
    refine ⟨fun _ => ⟨?_, ?_⟩, fun _ => ⟨?_, ?_⟩, trivial, trivial⟩
    · intro ref href
      cases href
      decide
    · intro hlisted
      cases hlisted
    · intro ref href
      cases href
      decide
    · intro _
      decide +kernel

/-- The larger version of a listed key leaves the bytes and the counts as they were. -/
theorem smallTier_not_accounts :
    ¬ Along WarmTier.call WarmTier.Accounts smallTier
        [.demote firstCopy (some [1]), .demote grownCopy (some [2])] := by
  rintro ⟨_, hsecond, _⟩
  exact absurd hsecond.left.bytes (by decide +kernel)

end Sample

end Serving
end Membrane
