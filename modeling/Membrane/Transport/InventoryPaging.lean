import Mathlib.Data.List.FinRange
import Membrane.Store.InventoryPages
import Membrane.Transport.Ops

/-!
# Paging through the inventory

A peer fetches the inventory of a node page by page.  A page is collected from one bucket
after the other until it is full, and its cursor says where the next one goes on.  The node
goes on working between two pages.
-/

namespace Membrane
namespace Transport

open Foundation Data Store Serving

/-!
# The operation
-/

structure InventoryPage where
  nodeId : String
  bucket : Option Int
  digest : Dict String Int
  next : String
  deriving DecidableEq

def nextBucket : List (Fin buckets) -> String
  | [] => ""
  | next :: _ => encodeCursor next ""

def collect (d : InventoryDigest) (limit : Int) :
    List (Fin buckets) -> String -> Dict String Int -> Dict String Int × String
  | [], _, page => (page, "")
  | current :: rest, last, page =>
    let found := d.page current last (limit - page.size)
    let page := page.update found.1
    if found.2 ≠ "" then (page, encodeCursor current found.2)
    else if limit ≤ page.size then (page, nextBucket rest)
    else collect d limit rest "" page

def opInventory {sigma tau pi : Type} (node : Option (Node sigma tau pi)) (after : String)
    (limit : Int) (bucket : Option Int) : Except Response InventoryPage :=
  match node with
  | none => .ok { nodeId := "", bucket := none, digest := Dict.empty, next := "" }
  | some n =>
    match bucket with
    | some bucket =>
      if hbucket : 0 ≤ bucket ∧ bucket < buckets then
        let found := n.table.digest.page ⟨bucket.toNat, by omega⟩ after limit
        .ok
          { nodeId := n.nodeId, bucket := some bucket, digest := found.1
            next := found.2 }
      else
        .error
          { status := 400
            body := [("error", .text ("bucket must be in [0, " ++ toString buckets ++ ")"))] }
    | none =>
      if limit ≤ 0 then
        .ok
          { nodeId := n.nodeId, bucket := none
            digest := n.fragments.mapValues (fun f => f.versionId)
            next := "" }
      else
        let start := decodeCursor after
        let found := collect n.table.digest limit
          ((List.finRange buckets).drop start.1.val) start.2 Dict.empty
        .ok
          { nodeId := n.nodeId, bucket := none, digest := found.1, next := found.2 }

/-!
# Positions
-/

variable {limit : Int}

section Positions

def place (cursor : String) : Fin buckets ×ₗ String :=
  toLex (decodeCursor cursor)

theorem place_encodeCursor (bucket : Fin buckets) (contentHash : String) :
    place (encodeCursor bucket contentHash) = toLex (bucket, contentHash) := by
  unfold place
  rw [decodeCursor_encodeCursor]

variable [InventoryHash]

open InventoryHash

def rank (key : String) : Fin buckets ×ₗ String :=
  toLex (bucketOf key, key)

section

variable (key : String) (bucket : Fin buckets) (last : String)

theorem rank_le_iff :
    rank key ≤ toLex (bucket, last) <->
      bucketOf key < bucket ∨ (bucketOf key = bucket ∧ key ≤ last) :=
  Prod.Lex.toLex_le_toLex

theorem lt_rank_iff :
    toLex (bucket, last) < rank key <->
      bucket < bucketOf key ∨ (bucket = bucketOf key ∧ last < key) :=
  Prod.Lex.toLex_lt_toLex

end

/-!
# One page
-/

variable {d : InventoryDigest} {held : String -> Prop}

/-- What a scan over some buckets adds to a page, and the cursor it ends with. -/
structure Collected (held : String -> Prop) (scanned : List (Fin buckets)) (last : String)
    (page : Dict String Int) (result : Dict String Int × String) : Prop where
  mem_iff : forall k, k ∈ result.1 <-> k ∈ page ∨
    (held k ∧ bucketOf k ∈ scanned ∧
      (forall first, scanned.head? = some first -> bucketOf k = first -> last < k) ∧
      (result.2 ≠ "" -> rank k ≤ place result.2))
  nonempty : result.2 ≠ "" -> exists k, k ∈ result.1
  bucket_mem : result.2 ≠ "" -> (decodeCursor result.2).1 ∈ scanned

variable {current : Fin buckets} {rest : List (Fin buckets)} {last : String}
  {page : Dict String Int}

theorem collected_of_cut {more : String} {result : Dict String Int}
    (hlater : forall bucket, bucket ∈ rest -> current < bucket)
    (hmem : forall k, k ∈ result <-> k ∈ page ∨
      (held k ∧ bucketOf k = current ∧ last < k ∧ (more ≠ "" -> k ≤ more)))
    (hmore : more ≠ "") (hnonempty : exists k, k ∈ result) :
    Collected held (current :: rest) last page (result, encodeCursor current more) := by
  have hbucket : (decodeCursor (encodeCursor current more)).1 ∈ current :: rest := by
    rw [decodeCursor_encodeCursor]
    exact List.mem_cons_self
  refine ⟨?_, fun _ => hnonempty, fun _ => hbucket⟩
  intro k
  simp only [hmem, place_encodeCursor, rank_le_iff]
  apply or_congr_right
  constructor
  · intro h
    rcases h with ⟨hk, hbucket, hlast, hle⟩
    refine ⟨hk, ?_, fun _ _ _ => hlast, fun _ => Or.inr ⟨hbucket, hle hmore⟩⟩
    rw [hbucket]
    exact List.mem_cons_self
  · intro h
    rcases h with ⟨hk, hbucket, hlast, hle⟩
    rcases hle (encodeCursor_ne_empty current more) with hlt | heq
    · rcases List.mem_cons.mp hbucket with hcurrent | hrest
      · exact absurd (le_of_eq hcurrent.symm) (not_le_of_gt hlt)
      · exact absurd hlt (lt_asymm (hlater _ hrest))
    · exact ⟨hk, heq.left, hlast current rfl heq.left, fun _ => heq.right⟩

theorem collected_of_full {result : Dict String Int}
    (hscanned : (current :: rest).Pairwise (· < ·)) (hheld : forall k, held k -> k ≠ "")
    (hmem : forall k, k ∈ result <-> k ∈ page ∨ (held k ∧ bucketOf k = current ∧ last < k))
    (hnonempty : exists k, k ∈ result) :
    Collected held (current :: rest) last page (result, nextBucket rest) := by
  cases rest with
  | nil =>
    refine ⟨?_, fun _ => hnonempty, fun h => absurd rfl h⟩
    intro k
    rw [hmem]
    apply or_congr_right
    simp only [nextBucket, List.mem_singleton, List.head?_cons, Option.some.injEq,
      ne_eq, not_true_eq_false, false_implies, and_true]
    constructor
    · intro h
      exact ⟨h.left, h.right.left, fun _ _ _ => h.right.right⟩
    · intro h
      exact ⟨h.left, h.right.left, h.right.right current rfl h.right.left⟩
  | cons next rest =>
    have hparts := List.pairwise_cons.mp hscanned
    have hnext : current < next := hparts.left next List.mem_cons_self
    have hbucket : (decodeCursor (encodeCursor next "")).1 ∈ current :: next :: rest := by
      rw [decodeCursor_encodeCursor]
      exact List.mem_cons_of_mem _ List.mem_cons_self
    refine ⟨?_, fun _ => hnonempty, fun _ => hbucket⟩
    intro k
    rw [hmem]
    apply or_congr_right
    simp only [nextBucket, place_encodeCursor, rank_le_iff]
    constructor
    · intro h
      rcases h with ⟨hk, hbucket, hlast⟩
      rw [hbucket]
      exact ⟨hk, List.mem_cons_self, fun _ _ _ => hlast, fun _ => Or.inl hnext⟩
    · intro h
      rcases h with ⟨hk, hbucket, hlast, hle⟩
      rcases List.mem_cons.mp hbucket with hcurrent | hrest
      · exact ⟨hk, hcurrent, hlast current rfl hcurrent⟩
      · exfalso
        rcases hle (encodeCursor_ne_empty next "") with hlt | heq
        · rcases List.mem_cons.mp hrest with hfirst | hlater
          · exact absurd (le_of_eq hfirst.symm) (not_le_of_gt hlt)
          · exact lt_asymm hlt ((List.pairwise_cons.mp hparts.right).left _ hlater)
        · exact absurd heq.right (not_le_of_gt (empty_lt_of_ne (hheld k hk)))

theorem Collected.cons {found : Dict String Int} {result : Dict String Int × String}
    (h : Collected held rest "" found result)
    (hlater : forall bucket, bucket ∈ rest -> current < bucket)
    (hheld : forall k, held k -> k ≠ "")
    (hmem : forall k, k ∈ found <-> k ∈ page ∨ (held k ∧ bucketOf k = current ∧ last < k)) :
    Collected held (current :: rest) last page result := by
  refine ⟨?_, h.nonempty, fun hmore => List.mem_cons_of_mem _ (h.bucket_mem hmore)⟩
  intro k
  rw [h.mem_iff, hmem, or_assoc]
  apply or_congr_right
  constructor
  · intro hk
    rcases hk with hk | hk
    · rcases hk with ⟨hk, hbucket, hlast⟩
      refine ⟨hk, ?_, fun _ _ _ => hlast, ?_⟩
      · rw [hbucket]
        exact List.mem_cons_self
      · intro hmore
        apply (rank_le_iff k _ _).mpr
        rw [hbucket]
        exact Or.inl (hlater _ (h.bucket_mem hmore))
    · rcases hk with ⟨hk, hbucket, _, hle⟩
      refine ⟨hk, List.mem_cons_of_mem _ hbucket, ?_, hle⟩
      intro first hfirst heq
      cases hfirst
      rw [heq] at hbucket
      exact absurd (hlater _ hbucket) (lt_irrefl current)
  · intro hk
    rcases hk with ⟨hk, hbucket, hlast, hle⟩
    rcases List.mem_cons.mp hbucket with hcurrent | hrest
    · exact Or.inl ⟨hk, hcurrent, hlast current rfl hcurrent⟩
    · exact Or.inr ⟨hk, hrest, fun _ _ _ => empty_lt_of_ne (hheld k hk), hle⟩

theorem collect_collected
    (hmembers : forall bucket k, k ∈ d.members bucket <-> bucketOf k = bucket ∧ held k)
    (hheld : forall k, held k -> k ≠ "") (hlimit : 0 < limit) (scanned : List (Fin buckets))
    (hscanned : scanned.Pairwise (· < ·)) (last : String) (page : Dict String Int) :
    Collected held scanned last page (collect d limit scanned last page) := by
  induction scanned generalizing last page with
  | nil =>
    constructor
    · intro k
      simp [collect]
    · intro h
      exact absurd rfl h
    · intro h
      exact absurd rfl h
  | cons current rest ih =>
    have hlater := (List.pairwise_cons.mp hscanned).left
    have hfound := d.page_pageOf current last (limit - page.size)
    rw [collect]
    generalize d.page current last (limit - page.size) = found at hfound
    have hmem : forall k, k ∈ page.update found.1 <-> k ∈ page ∨
        (held k ∧ bucketOf k = current ∧ last < k ∧ (found.2 ≠ "" -> k ≤ found.2)) := by
      intro k
      rw [Dict.mem_update, hfound.mem_iff, hmembers, and_comm (a := bucketOf k = current),
        and_assoc]
    by_cases hmore : found.2 ≠ ""
    · rw [if_pos hmore]
      exact collected_of_cut hlater hmem hmore
        ((hfound.nonempty hmore).imp (fun k hk => (Dict.mem_update _ _ k).mpr (Or.inr hk)))
    · rw [if_neg hmore]
      have hwhole : forall k, k ∈ page.update found.1 <-> k ∈ page ∨
          (held k ∧ bucketOf k = current ∧ last < k) := by
        intro k
        rw [hmem]
        simp only [hmore, false_implies, and_true]
      split_ifs
      · exact collected_of_full hscanned hheld hwhole
          (Dict.exists_mem_of_size_pos (by omega))
      · exact (ih (List.pairwise_cons.mp hscanned).right "" _).cons hlater hheld hwhole

end Positions

/-!
# What a peer reads
-/

theorem mem_drop_finRange (start bucket : Fin buckets) :
    bucket ∈ (List.finRange buckets).drop start.val <-> start ≤ bucket := by
  rw [List.mem_drop_iff_getElem]
  constructor
  · intro h
    rcases h with ⟨i, hi, heq⟩
    rw [List.getElem_finRange] at heq
    rw [← heq]
    exact Nat.le_add_right _ _
  · intro h
    refine ⟨bucket.val - start.val, ?_, ?_⟩
    · rw [List.length_finRange]
      omega
    · rw [List.getElem_finRange]
      apply Fin.ext
      show start.val + (bucket.val - start.val) = bucket.val
      omega

theorem head?_drop_finRange (start : Fin buckets) :
    ((List.finRange buckets).drop start.val).head? = some start := by
  simp

section Fetching

variable {sigma tau pi : Type}

def fetchPage (limit : Int) (n : Node sigma tau pi) (cursor : String) :
    List String × Option String :=
  match opInventory (some n) cursor limit none with
  | .error _ => ([], none)
  | .ok page => (page.digest.keys, if page.next = "" then none else some page.next)

variable [InventoryHash]

open InventoryHash

variable {n : Node sigma tau pi}

section

variable (hn : n.Consistent)

include hn

theorem mem_members_iff (bucket : Fin buckets) (k : String) :
    k ∈ n.table.digest.members bucket <-> bucketOf k = bucket ∧ k ∈ n.fragments := by
  rw [Dict.mem_iff_exists_get?, hn.bookkeeping.digest.members_eq, Dict.mem_iff_exists_get?]
  by_cases hbucket : bucketOf k = bucket
  · simp [hbucket, Node.fragments]
  · simp [hbucket]

theorem ne_empty_of_resident (k : String) (hk : k ∈ n.fragments) :
    k ≠ "" := by
  rcases (Dict.mem_iff_exists_get? _ _).mp hk with ⟨f, hf⟩
  rw [← hn.bookkeeping.keyed k f hf]
  exact f.key_ne_empty

theorem place_first_lt {k : String} (hk : k ∈ n.fragments) :
    place "" < rank k := by
  rw [place, lt_rank_iff]
  rcases Nat.eq_zero_or_pos (bucketOf k).val with hzero | hpos
  · exact Or.inr ⟨Fin.ext hzero.symm, empty_lt_of_ne (ne_empty_of_resident hn k hk)⟩
  · exact Or.inl (Fin.lt_def.mpr hpos)

theorem fetchPage_isPage (hlimit : 0 < limit) (cursor : String) :
    IsPage rank place (fun k => k ∈ n.fragments) cursor (fetchPage limit n cursor) := by
  have hmembers := mem_members_iff hn
  have hheld := ne_empty_of_resident hn
  have hcollected := collect_collected hmembers hheld hlimit
    ((List.finRange buckets).drop (decodeCursor cursor).1.val)
    ((List.pairwise_lt_finRange buckets).sublist (List.drop_sublist _ _))
    (decodeCursor cursor).2 Dict.empty
  unfold fetchPage opInventory
  simp only [if_neg (not_le_of_gt hlimit)]
  generalize collect n.table.digest limit _ _ _ = result at hcollected
  have hnext : forall next, (if result.2 = "" then none else some result.2) = some next <->
      result.2 ≠ "" ∧ result.2 = next := by
    intro next
    by_cases hend : result.2 = ""
    · simp [hend]
    · simp [hend]
  constructor
  · exact result.1.keys_nodup
  · intro k
    have hstart : (bucketOf k ∈ (List.finRange buckets).drop (decodeCursor cursor).1.val ∧
        forall first, some (decodeCursor cursor).1 = some first -> bucketOf k = first ->
          (decodeCursor cursor).2 < k) <-> place cursor < rank k := by
      rw [mem_drop_finRange, place, lt_rank_iff, le_iff_lt_or_eq]
      grind
    have hmem := hcollected.mem_iff k
    rw [head?_drop_finRange] at hmem
    show k ∈ result.1 <-> _
    rw [hmem, ← hstart]
    simp only [Dict.not_mem_empty, false_or, hnext]
    constructor
    · intro h
      rcases h with ⟨hk, hbucket, hlast, hle⟩
      refine ⟨hk, ⟨hbucket, hlast⟩, ?_⟩
      intro next hcursor
      rw [← hcursor.right]
      exact hle hcursor.left
    · intro h
      rcases h with ⟨hk, hafter, hle⟩
      exact ⟨hk, hafter.left, hafter.right, fun hmore => hle _ ⟨hmore, rfl⟩⟩
  · intro next hsome
    rcases hcollected.nonempty ((hnext next).mp hsome).left with ⟨k, hk⟩
    exact List.ne_nil_of_mem hk

end

/-!
# Following the cursor
-/

variable [ContentStore sigma] [LowerTier tau] [EvictionPolicy pi]

def requested (n : Node sigma tau pi) : List (List Call) -> List (Node sigma tau pi)
  | [] => []
  | calls :: rest => run Node.call n calls :: requested (run Node.call n calls) rest

def followInventory (limit : Int) (n : Node sigma tau pi) (schedule : List (List Call)) :
    Reader String String :=
  run (Reader.turn (fetchPage limit)) (Reader.start "") (requested n schedule)

theorem run_call_invariant (hn : n.Invariant) (calls : List Call) :
    (run Node.call n calls).Invariant :=
  throughout_of_step Node.Invariant (fun _ c hn => Node.call_invariant hn c) hn calls calls
    (List.prefix_refl calls)

theorem requested_invariant (hn : n.Invariant) (schedule : List (List Call))
    (m : Node sigma tau pi) (hm : m ∈ requested n schedule) : m.Invariant := by
  induction schedule generalizing n with
  | nil => cases hm
  | cons calls rest ih =>
    have hfirst := run_call_invariant hn calls
    rcases List.mem_cons.mp hm with heq | hrest
    · rw [heq]
      exact hfirst
    · exact ih hfirst hrest

theorem requested_replicate (n : Node sigma tau pi) (turns : Nat) :
    requested n (List.replicate turns []) = List.replicate turns n := by
  induction turns with
  | zero => rfl
  | succ turns ih => exact congrArg (fun rest => n :: rest) ih

section

variable (hn : n.Invariant)

include hn

theorem exists_requested_rest (schedule : List (List Call)) :
    exists m : Node sigma tau pi, m.Invariant ∧ forall turns,
      requested n (schedule ++ List.replicate turns []) =
        requested n schedule ++ List.replicate turns m := by
  induction schedule generalizing n with
  | nil => exact ⟨n, hn, requested_replicate n⟩
  | cons calls rest ih =>
    rcases ih (run_call_invariant hn calls) with ⟨m, hm, hrest⟩
    exact ⟨m, hm, fun turns => congrArg (fun rest => _ :: rest) (hrest turns)⟩

theorem exists_followInventory_end (hlimit : 0 < limit) (schedule : List (List Call)) :
    exists turns,
      (followInventory limit n (schedule ++ List.replicate turns [])).cursor = none := by
  rcases exists_requested_rest hn schedule with ⟨m, hm, hrest⟩
  rcases Reader.exists_end_of_rest (fun cursor => fetchPage_isPage hm.toConsistent hlimit cursor)
    (fun k => (List.mem_toFinset (l := m.fragments.keys)).symm)
    (followInventory limit n schedule) with ⟨turns, hturns⟩
  refine ⟨turns, ?_⟩
  unfold followInventory
  rw [hrest, run_append]
  exact hturns

theorem followInventory_nodup (hlimit : 0 < limit)
    (schedule : List (List Call)) : (followInventory limit n schedule).returned.Nodup :=
  (Reader.run_ordered
    (fun m hm cursor =>
      fetchPage_isPage (requested_invariant hn schedule m hm).toConsistent hlimit cursor)
    (Reader.start_ordered "")).nodup

theorem mem_followInventory (hlimit : 0 < limit) {schedule : List (List Call)}
    (hend : (followInventory limit n schedule).cursor = none) {key : String}
    (hkey : forall m, m ∈ requested n schedule -> key ∈ m.fragments) :
    key ∈ (followInventory limit n schedule).returned := by
  cases schedule with
  | nil => cases hend
  | cons calls rest =>
    have hfirst : run Node.call n calls ∈ requested n (calls :: rest) := List.mem_cons_self
    have hplace : place "" < rank key :=
      place_first_lt (requested_invariant hn _ _ hfirst).toConsistent (hkey _ hfirst)
    exact Reader.mem_returned_of_held
      (fun m hm cursor =>
        fetchPage_isPage (requested_invariant hn _ m hm).toConsistent hlimit cursor)
      hplace hkey hend

end

end Fetching

section Removal

attribute [local instance] InventoryHash.constant

def removedBetween : List (List Call) :=
  [[.mutation (.store publicOther true Caller.internal 1 1),
      .mutation (.store publicCopy true Caller.internal 2 2)],
    [.mutation (.removeFragment "g")]]

theorem removedBetween_resident (turns : Nat)
    (m : Node InProcessBytes Empty WeightedLRU)
    (hm : m ∈ requested (Node.create (Config.default "n0" 100))
      (removedBetween ++ List.replicate turns [])) : "h" ∈ m.fragments := by
  rcases List.mem_cons.mp hm with heq | hm
  · rw [heq]
    decide +kernel
  · rcases List.mem_cons.mp hm with heq | hm
    · rw [heq]
      decide +kernel
    · change m ∈ requested _ (List.replicate turns []) at hm
      rw [requested_replicate] at hm
      rw [(List.mem_replicate.mp hm).right]
      decide +kernel

end Removal

end Transport
end Membrane
