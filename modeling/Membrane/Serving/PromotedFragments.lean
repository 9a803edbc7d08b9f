import Membrane.Serving.ForbiddenReads
import Membrane.Transport.Availability

/-!
# Fragments that come back from the warm tier

A promotion removes the fragment from the tier before the node decides whether it takes
it.  The fragment survives exactly when the content store takes its bytes, the node
accepts it as it would accept any store, and the room made for it does not cost its bytes.
-/

namespace Membrane
namespace Serving

open Foundation Data Store

namespace Node

/-!
# The keys that make room
-/

section Outline

/-- A content store for nodes whose payloads do not matter. -/
@[reducible] def noBytes : ContentStore Unit where
  fault := Function.const String none
  get _ _ := none
  has _ _ := false
  put _ _ _ := .error ""
  delete _ _ := (false, ())
  fault_eq _ := rfl
  has_eq _ _ := rfl
  get_put _ _ _ _ h := by cases h
  get_delete _ _ _ := by simp

attribute [local instance] noBytes

variable {sigma tau pi : Type}

/-- The node without its payloads and its lower tier. -/
def outline (n : Node sigma tau pi) : Node Unit Empty pi :=
  { n with contentStore := (), lowerTier := none }

def Evicted.outline (e : Evicted sigma tau pi) : Evicted Unit Empty pi :=
  { victims := e.victims, freed := e.freed, node := e.node.outline }

def outlined {alpha beta : Type} (outline : alpha -> beta) :
    Except (Raised sigma tau pi) alpha -> Except (Raised Unit Empty pi) beta
  | .error raised => .error { error := raised.error, node := raised.node.outline }
  | .ok result => .ok (outline result)

def removedOutline (removed : Fragment × Node sigma tau pi) : Fragment × Node Unit Empty pi :=
  (removed.1, removed.2.outline)

theorem charged_outline (n : Node sigma tau pi) (f : Fragment) :
    (n.charged f).outline = n.outline.charged f := by
  unfold charged chargeQuota
  rw [show n.outline.quotas = n.quotas from rfl]
  cases n.quotas.get? f.tenantId with
  | none => rfl
  | some quota =>
    simp only
    split_ifs
    · rfl
    · rfl

variable [InventoryHash] [ContentStore sigma] {n m : Node sigma tau pi}

theorem removeFragment_outline (n : Node sigma tau pi) (k : String) :
    n.outline.removeFragment k = outlined removedOutline (n.removeFragment k) := by
  unfold removeFragment
  have htable : n.outline.table.pop k = n.table.pop k := rfl
  rw [htable]
  cases n.table.pop k with
  | none => rfl
  | some entry =>
    simp only [dropPayload_of_total]
    rfl

variable [LowerTier tau]

theorem evictKey_outline (n : Node sigma tau pi) (demoting : Bool) (k : String) :
    n.outline.evictKey demoting k = outlined removedOutline (n.evictKey demoting k) := by
  have hdemoted : (if demoting then n.outline.demoted k else n.outline) =
      (if demoting then n.demoted k else n).outline := by
    cases demoting with
    | false | true => rfl
  rw [evictKey_of_addressed (addressed _), evictKey_of_addressed (addressed _), hdemoted,
    removeFragment_outline]

theorem evictKeys_outline (demoting skipAbsent : Bool) (targetBytes : Int)
    (keys : List String) (freed : Int) (n : Node sigma tau pi) :
    evictKeys demoting skipAbsent targetBytes keys freed n.outline =
      outlined Evicted.outline
        (evictKeys demoting skipAbsent targetBytes keys freed n) := by
  induction keys generalizing freed n with
  | nil => rfl
  | cons k rest ih =>
    unfold evictKeys
    rw [evictKey_outline, show n.outline.fragments = n.fragments from rfl]
    split_ifs
    · exact ih freed n
    · rfl
    · cases n.evictKey demoting k with
      | error e => rfl
      | ok removed =>
        simp only [outlined, removedOutline]
        rw [ih]
        cases evictKeys demoting skipAbsent targetBytes rest
            (freed + removed.1.payloadSize) removed.2 with
        | error e | ok tail => rfl

theorem evictSeeds_outline (targetBytes : Int) (seeds : List String) (freed : Int)
    (n : Node sigma tau pi) :
    evictSeeds targetBytes seeds freed n.outline =
      outlined Evicted.outline (evictSeeds targetBytes seeds freed n) := by
  induction seeds generalizing freed n with
  | nil => rfl
  | cons k rest ih =>
    unfold evictSeeds
    split_ifs
    · rfl
    · have hkeys := evictKeys_outline true true targetBytes (n.graph.evictionNeighbors k)
        freed n
      rw [show n.outline.graph = n.graph from rfl, hkeys]
      cases evictKeys true true targetBytes (n.graph.evictionNeighbors k) freed n with
      | error e => rfl
      | ok first =>
        simp only [outlined]
        rw [show (Evicted.outline first).node = first.node.outline from rfl,
          show (Evicted.outline first).freed = first.freed from rfl, ih]
        cases evictSeeds targetBytes rest first.freed first.node with
        | error e | ok tail => rfl

variable [EvictionPolicy pi]

theorem evict_outline (targetBytes : Int) (now : ℚ) (n : Node sigma tau pi) :
    n.outline.evict targetBytes now =
      outlined (fun evicted => (evicted.1, evicted.2.outline)) (n.evict targetBytes now) := by
  have hexpired : n.outline.evictExpired targetBytes now =
      outlined Evicted.outline (n.evictExpired targetBytes now) :=
    evictKeys_outline false false targetBytes (n.table.expired now) 0 n
  unfold evict
  rw [hexpired]
  split_ifs
  · rfl
  cases n.evictExpired targetBytes now with
  | error e => rfl
  | ok first =>
    have hlru : first.node.outline.evictLru (targetBytes - first.freed) now
        (first.victims.map Prod.fst) =
          outlined Evicted.outline (first.node.evictLru (targetBytes - first.freed) now
            (first.victims.map Prod.fst)) :=
      evictKeys_outline true false _ _ 0 first.node.mergeReads
    simp only [outlined, Evicted.outline]
    rw [hlru]
    split_ifs
    · rfl
    cases first.node.evictLru (targetBytes - first.freed) now
        (first.victims.map Prod.fst) with
    | error e => rfl
    | ok second =>
      simp only [outlined, Evicted.outline]
      rw [evictGraphNeighbors, evictSeeds_outline]
      unfold evictGraphNeighbors
      split_ifs
      · rfl
      cases evictSeeds (targetBytes - (first.freed + second.freed))
          ((first.victims ++ second.victims).map Prod.fst) 0 second.node with
      | error e | ok third => rfl

theorem plannedVictims_outline (n : Node sigma tau pi) (f : Fragment) (evictTime : ℚ) :
    n.outline.plannedVictims f evictTime = n.plannedVictims f evictTime := by
  unfold plannedVictims
  rw [evict_outline]
  cases n.evict f.payloadSize evictTime with
  | error e => rfl
  | ok evicted => rfl

theorem plannedVictims_congr (h : m.outline = n.outline) (f : Fragment) (evictTime : ℚ) :
    m.plannedVictims f evictTime = n.plannedVictims f evictTime := by
  rw [← plannedVictims_outline m, h, plannedVictims_outline]

end Outline

/-!
# The tier below a node
-/

section Tier

variable {sigma rho pi : Type}

def Below (n : Node sigma (WarmTier rho) pi) (holds : WarmTier rho -> Prop) : Prop :=
  exists w, n.lowerTier = some w ∧ holds w

variable {n m : Node sigma (WarmTier rho) pi} {k j : String} {holds : WarmTier rho -> Prop}

theorem Below.of_lowerTier (h : n.Below holds) (htier : m.lowerTier = n.lowerTier) :
    m.Below holds := by
  unfold Below
  rw [htier]
  exact h

theorem Below.readKey [InventoryHash] [ContentStore sigma] (h : n.Below holds)
    (thread : Thread) (caller : Caller) (now : ℚ) :
    (n.readKey thread j caller now).2.Below holds := by
  have hseen : (n.withLookup thread j (some now)).Below holds := h.of_lowerTier rfl
  rcases n.readKey_cases thread j caller now with hsame | ⟨_, f, removed, hremove, hread⟩
  · rw [hsame]
    exact hseen
  · rcases removeFragment_eq_ok hremove with ⟨table, _, _, hremoved⟩
    rw [hread]
    apply hseen.of_lowerTier
    rw [hremoved]
    rfl

variable [ContentStore rho] [FragmentCodec]

/-- Promotions and demotions of fragments under other keys keep the property. -/
structure KeptBelow (k : String) (holds : WarmTier rho -> Prop) : Prop where
  promote : forall w j, holds w -> holds (w.promote j).2
  demoteLater : forall w f payload, f.key ≠ k -> holds w -> holds (w.demoteLater f payload)

theorem filed_keptBelow (k : String) : KeptBelow k (fun w : WarmTier rho => w.Filed) where
  promote _ j h := h.promote j
  demoteLater _ f payload _ h := h.demoteLater f payload

theorem not_holds_keptBelow (k : String) (f : Fragment) :
    KeptBelow k (fun w : WarmTier rho => ¬ w.Holds k f) where
  promote _ _ h := fun hafter => h (WarmTier.holds_of_promoted hafter)
  demoteLater w g payload hkey h := by
    rintro (⟨data, hpending⟩ | hstored)
    · apply h
      change (w.pending.set g.key _).get? k = some (f, data) at hpending
      rw [Dict.get?_set, if_neg hkey.symm] at hpending
      exact Or.inl ⟨data, hpending⟩
    · exact h (Or.inr hstored)

theorem Below.taken (h : n.Below holds) (hkept : KeptBelow k holds) (j : String) :
    (n.taken j).Below holds := by
  rcases h with ⟨w, htier, hw⟩
  exact ⟨_, lowerTier_taken_of_warm htier j, hkept.promote w j hw⟩

variable [InventoryHash] [ContentStore sigma]

theorem Below.demoted (h : n.Below holds) (hkept : KeptBelow k holds) (hn : n.Consistent)
    (hk : ¬ k ∈ n.fragments) (j : String) : (n.demoted j).Below holds := by
  rcases h with ⟨w, htier, hw⟩
  unfold Node.demoted
  rw [htier]
  cases hj : n.table.fragments.get? j with
  | none => exact ⟨w, rfl, hw⟩
  | some g =>
    refine ⟨_, rfl, hkept.demoteLater w g _ ?_ hw⟩
    rw [hn.bookkeeping.keyed j g hj]
    rintro rfl
    exact hk (Dict.mem_of_get? hj)

theorem KeptBelow.keptByRemovals (hkept : KeptBelow k holds) :
    KeptByRemovals (fun m : Node sigma (WarmTier rho) pi =>
      m.Consistent ∧ ¬ k ∈ m.fragments ∧ m.Below holds) where
  demoted m j h :=
    ⟨(demoted_evicts h.left j).consistent, h.right.left,
      h.right.right.demoted hkept h.left h.right.left j⟩
  remove m j g m' hremove h := by
    refine ⟨removeFragment_consistent h.left hremove,
      (absent_keptByRemovals k).remove m j g m' hremove h.right.left, ?_⟩
    rcases removeFragment_eq_ok hremove with ⟨table, _, _, hm⟩
    apply h.right.right.of_lowerTier
    rw [hm]
    rfl
  raised m j raised hremove h := by
    rw [raised_node_of_total hremove]
    exact h
  mergeReads m h :=
    ⟨(mergeReads_evicts h.left).consistent, h.right.left, h.right.right.of_lowerTier rfl⟩
  callbacks m evicted reason h :=
    ⟨(fireEvictionCallbacks_evicts h.left evicted reason).consistent, h.right.left,
      h.right.right.of_lowerTier rfl⟩

variable [EvictionPolicy pi]

theorem Below.store (h : n.Below holds) (hkept : KeptBelow k holds) (hn : n.Invariant)
    (hk : ¬ k ∈ n.fragments) (g : Fragment) (isPrimary : Bool) (caller : Caller)
    (now evictTime : ℚ) : (n.store g isPrimary caller now evictTime).2.Below holds := by
  have hcharged : (n.charged g).Below holds := h.of_lowerTier (n.charged_lowerTier g)
  apply hkept.keptByRemovals.store (fun m => m.Below holds)
    (fun _ => payloadFault_of_total g) h hcharged
  · intro _
    exact hcharged.of_lowerTier rfl
  · intro _
    refine ⟨(charged_invariant hn g).toConsistent, ?_, hcharged⟩
    rw [charged_fragments]
    exact hk
  · intro room hroom
    exact ⟨hroom.right.right, fun _ _ => hroom.right.right.of_lowerTier rfl⟩

section

variable (h : (n.taken j).Below holds) (hkept : KeptBelow k holds) (hn : n.Invariant)
  (hk : ¬ k ∈ n.fragments)

include h hkept hn hk

theorem Below.promote (times : ReadTimes) :
    (n.promote j times).2.Below holds := by
  cases hitem : n.fetched j with
  | none =>
    rw [promote_of_none hitem]
    exact h
  | some item =>
    rw [promote_of_some hitem]
    cases hput : (n.taken j).putPromoted item.1 item.2 with
    | error e => exact h
    | ok filled =>
      have hfilled := putPromoted_eq hput
      refine Below.store (h.of_lowerTier ?_) hkept (filled_invariant hn hput) ?_ _ _ _ _ _
      · rw [hfilled]
      · rw [hfilled]
        exact hk

theorem Below.retrieveKey_of_taken (hj : ¬ j ∈ n.fragments) (thread : Thread)
    (caller : Caller) (times : ReadTimes) :
    (n.retrieveKey thread j caller times).2.Below holds := by
  have hpromoted := h.promote hkept hn hk times
  rw [retrieveKey_of_not_mem hj]
  split
  · rename_i heq
    rw [heq] at hpromoted
    exact hpromoted
  · rename_i heq
    rw [heq] at hpromoted
    exact hpromoted.readKey thread caller times.read

end

theorem Below.retrieveKey (h : n.Below holds) (hkept : KeptBelow k holds) (hn : n.Invariant)
    (hk : ¬ k ∈ n.fragments) (thread : Thread) (j : String) (caller : Caller)
    (times : ReadTimes) : (n.retrieveKey thread j caller times).2.Below holds := by
  by_cases hj : j ∈ n.fragments
  · unfold Node.retrieveKey
    rw [if_neg (fun hand => hand.right hj)]
    exact h.readKey thread caller times.read
  · exact (h.taken hkept j).retrieveKey_of_taken hkept hn hk hj thread caller times

end Tier

/-!
# A promotion that the node takes
-/

section Taking

variable {sigma tau pi : Type} {n filled : Node sigma tau pi} {k : String}
  {item : Fragment × Option Bytes}

theorem uncached_of_absent (hcached : CachedResident n.table) (hk : ¬ k ∈ n.fragments) :
    n.Uncached k := by
  intro thread
  cases hentry : n.table.cached thread k with
  | none => rfl
  | some entry => exact absurd (Dict.mem_of_get? (hcached thread k entry hentry)) hk

variable [ContentStore sigma]

theorem get_putPromoted {f : Fragment} {payload : Option Bytes} {ref : String}
    (hput : n.putPromoted f payload = .ok filled) (href : f.payloadRef = some ref) :
    ContentStore.get filled.contentStore ref =
      payload.or (ContentStore.get n.contentStore ref) := by
  unfold putPromoted at hput
  rw [href] at hput
  cases payload with
  | none =>
    cases hput
    rfl
  | some data =>
    simp only at hput
    split at hput
    · cases hput
    · rename_i hwritten
      cases hput
      rw [ContentStore.get_put _ _ _ _ hwritten, if_pos rfl]
      rfl

structure Secured (n : Node sigma tau pi) (item : Fragment × Option Bytes) : Prop where
  resident : n.fragments.get? item.1.key = some item.1
  bytes : forall ref, item.1.payloadRef = some ref -> exists data,
    ContentStore.get n.contentStore ref = some data ∧ (item.2 = none ∨ item.2 = some data)

theorem Secured.withLookup_iff (thread : Thread) (j : String) (now : Option ℚ) :
    (n.withLookup thread j now).Secured item <-> n.Secured item := by
  have hfragments : (n.withLookup thread j now).fragments = n.fragments := by
    show (n.table.lookup thread j now).2.fragments = n.table.fragments
    rw [n.table.lookup_cachesOnly thread j now]
  constructor
  · intro h
    exact ⟨by rw [← hfragments]; exact h.resident, h.bytes⟩
  · intro h
    exact ⟨by rw [hfragments]; exact h.resident, h.bytes⟩

variable [InventoryHash] [LowerTier tau] [EvictionPolicy pi]

theorem mem_of_retrieveKey (hn : n.Invariant) (hkeyed : n.KeyedTier) {thread : Thread}
    {j : String} {caller : Caller} {times : ReadTimes}
    (hmem : j ∈ (n.retrieveKey thread k caller times).2.fragments) :
    j = k ∨ j ∈ n.fragments := by
  have hkept : KeptByReads (fun m : Node sigma tau pi =>
      m.Invariant ∧ forall j, j ∈ m.fragments -> j = k ∨ j ∈ n.fragments) :=
    keptByReads_of_evicts (fun _ hm => hm.left.toConsistent)
      (fun _ _ _ h hm => ⟨h.invariant hm.left, fun j hj => hm.right j (h.mem_of_remaining hj)⟩)
      (fun _ tier hm => ⟨invariant_keptBySteps.taken _ tier hm.left, hm.right⟩)
      (fun _ store hm => ⟨invariant_keptBySteps.filled _ store hm.left, hm.right⟩)
  refine (hkept.retrieveKey ⟨hn, fun _ => Or.inr⟩ thread k caller ?_).right j hmem
  rintro _ m f ⟨tier, payload, htier, hpromoted⟩ hm
  refine ⟨store_invariant hm.left, fun j hj => ?_⟩
  rcases mem_of_store hm.left hj with rfl | hold
  · left
    apply hkeyed k (f, payload)
    rw [Node.fetched, htier, Option.bind_some, hpromoted]
  · exact hm.right j hold

section Accepted

variable (hk : ¬ k ∈ n.fragments) (hitem : n.fetched k = some item) (hkey : item.1.key = k)
  (hput : (n.taken k).putPromoted item.1 item.2 = .ok filled)
  (haccepts : n.Accepts item.1 Caller.internal)

include hk hitem hkey hput haccepts

theorem promote_of_accepts (hn : n.Invariant) (times : ReadTimes) :
    exists victims room,
      victims.map Prod.fst = (n.charged item.1).plannedVictims item.1 times.evicted ∧
      Evicts (filled.charged item.1) victims room ∧
      n.promote k times = (.ok (), room.inserted item.1 false times.promoted) := by
  have hfilled := putPromoted_eq hput
  have haccepted := (accepts_filled_iff hput).mpr haccepts
  have hnew : ¬ item.1.key ∈ filled.fragments := by
    rw [hfilled, hkey]
    exact hk
  rcases store_cases (filled_invariant hn hput) item.1 false Caller.internal times.promoted
    times.evicted with
    ⟨hgates, _, _⟩ | ⟨_, hlarge, _⟩ | ⟨_, _, hmem, _⟩ |
      ⟨_, _, _, victims, room, hplan, hevicts, _, _, hstore⟩
  · exact absurd haccepted.left hgates
  · exact absurd hlarge (not_lt.mpr haccepted.right)
  · exact absurd hmem hnew
  · refine ⟨victims, room, ?_, hevicts, ?_⟩
    · rw [hplan]
      apply plannedVictims_congr
      rw [charged_outline, charged_outline, hfilled]
      rfl
    · rw [promote_of_some hitem, hput]
      simp only [hstore]
      rfl

/-- The content store takes the bytes that came with the fragment or has them, the node
accepts the fragment, and if its payload is in use some user is not among the keys that
make room. -/
structure Receives (n : Node sigma tau pi) (item : Fragment × Option Bytes) (evictTime : ℚ) :
    Prop where
  put : exists filled, n.putPromoted item.1 item.2 = .ok filled
  accepts : n.Accepts item.1 Caller.internal
  bytes : forall ref, item.1.payloadRef = some ref ->
    item.2.isSome = true ∨ ContentStore.has n.contentStore ref = true
  kept : forall ref, item.1.payloadRef = some ref -> Uses n.fragments ref ->
    exists j g, ¬ j ∈ (n.charged item.1).plannedVictims item.1 evictTime ∧
      n.fragments.get? j = some g ∧ g.payloadRef = some ref

theorem promote_secured_iff (hn : n.Invariant) (times : ReadTimes) :
    (n.promote k times).2.Secured item <-> n.Receives item times.evicted := by
  rcases promote_of_accepts hk hitem hkey hput haccepts hn times with
    ⟨victims, room, hplan, hevicts, hpromote⟩
  have hfragments : (filled.charged item.1).fragments = n.fragments := by
    rw [charged_fragments, putPromoted_eq hput]
    rfl
  have hfilled : forall ref, item.1.payloadRef = some ref ->
      ContentStore.get (filled.charged item.1).contentStore ref =
        item.2.or (ContentStore.get n.contentStore ref) := by
    intro ref href
    have hwritten := get_putPromoted hput href
    rw [charged_contentStore]
    exact hwritten
  have huses : forall ref, (Uses n.fragments ref -> Uses room.fragments ref) <->
      (Uses n.fragments ref -> exists j g,
        ¬ j ∈ (n.charged item.1).plannedVictims item.1 times.evicted ∧
          n.fragments.get? j = some g ∧ g.payloadRef = some ref) := by
    intro ref
    rw [hevicts.uses_iff ref, hplan, hfragments]
  rw [hpromote]
  constructor
  · intro h
    have hkept : forall ref, item.1.payloadRef = some ref ->
        Uses n.fragments ref -> Uses room.fragments ref := by
      intro ref href hused
      by_contra horphan
      rcases h.bytes ref href with ⟨data, hdata, _⟩
      have hnone := hevicts.orphaned ref (by rw [hfragments]; exact hused) horphan
      cases hnone.symm.trans hdata
    refine
      { put := putPromoted_ok_congr (n := n.taken k) (m := n) rfl ⟨filled, hput⟩
        accepts := haccepts
        bytes := fun ref href => ?_
        kept := fun ref href => (huses ref).mp (hkept ref href) }
    rcases h.bytes ref href with ⟨data, hdata, _⟩
    change ContentStore.get room.contentStore ref = some data at hdata
    rw [hevicts.kept ref (by rw [hfragments]; exact hkept ref href), hfilled ref href] at hdata
    cases hpayload : item.2 with
    | some bytes => exact Or.inl rfl
    | none =>
      rw [hpayload, Option.none_or] at hdata
      right
      rw [ContentStore.has_eq, hdata]
      rfl
  · intro h
    refine
      { resident := by rw [get?_inserted, if_pos rfl]
        bytes := fun ref href => ?_ }
    have hsame : ContentStore.get room.contentStore ref =
        item.2.or (ContentStore.get n.contentStore ref) := by
      rw [hevicts.kept ref (by rw [hfragments]; exact (huses ref).mpr (h.kept ref href)),
        hfilled ref href]
    show exists data, ContentStore.get room.contentStore ref = some data ∧ _
    rw [hsame]
    cases hpayload : item.2 with
    | some bytes => exact ⟨bytes, rfl, Or.inr rfl⟩
    | none =>
      rcases h.bytes ref href with hsome | hhas
      · rw [hpayload] at hsome
        cases hsome
      · rw [ContentStore.has_eq] at hhas
        rcases Option.isSome_iff_exists.mp hhas with ⟨data, hdata⟩
        exact ⟨data, hdata, Or.inl rfl⟩

theorem retrieveKey_of_accepts (hn : n.ReadsResident) {times : ReadTimes}
    (hfresh : times.read ≤ times.promoted + item.1.ttl) (thread : Thread) (caller : Caller) :
    n.retrieveKey thread k caller times =
      (.ok (if caller.tenant ≠ "" ∧ canRead item.1.tenantId caller = false then none
        else some item.1), (n.promote k times).2.withLookup thread k (some times.read)) := by
  rcases promote_of_accepts hk hitem hkey hput haccepts hn.toInvariant times with
    ⟨victims, room, _, _, hpromote⟩
  have hpromoted := readsResident_keptBySteps.promote hn.both k
    (fun f _ => payloadFault_of_total f) times
  have huncached : (n.promote k times).2.Uncached k := by
    have hfilled : filled.Uncached k := by
      rw [putPromoted_eq hput]
      exact uncached_of_absent hn.cached hk
    rw [promote_of_some hitem, hput]
    exact store_uncached hfilled _ _ _ _ _
  have hok : (n.promote k times).1 = .ok () := by rw [hpromote]
  have hresident : (n.promote k times).2.fragments.get? k = some item.1 := by
    rw [hpromote, get?_inserted, if_pos hkey.symm]
  have htime : (n.promote k times).2.table.insertionTimes.get? k = some times.promoted := by
    rw [hpromote, ← hkey]
    exact Dict.get?_set_self _ _ _
  rw [retrieveKey_of_promoted hk hok]
  split_ifs with hrefused
  · apply readKey_of_refused hpromoted.right hrefused.left
    intro f hf
    cases hresident.symm.trans hf
    exact hrefused.right
  · refine readKey_of_live huncached.entriesRight
      { resident := hresident
        readable := ?_
        unexpired := ⟨times.promoted, htime, hfresh⟩ } thread
    by_cases hcaller : caller.tenant = ""
    · exact Or.inl hcaller
    · right
      cases hread : canRead item.1.tenantId caller with
      | true => rfl
      | false => exact absurd ⟨hcaller, hread⟩ hrefused

end Accepted

end Taking

/-!
# Reads that take a fragment out of the tier
-/

theorem otherReads_spec {sigma tau pi : Type} {n : Node sigma tau pi} {h : String}
    {caller : Caller} {times : ReadTimes} {r : KeyRead sigma tau pi}
    (hr : r ∈ n.otherReads h caller times) :
    r.node = n ∧ r.node.table.anyTenantCopy h = some r.key := by
  unfold otherReads at hr
  split_ifs at hr
  · cases hr
  · cases hcopy : n.table.anyTenantCopy h with
    | none =>
      rw [hcopy] at hr
      cases hr
    | some other =>
      simp only [hcopy, List.mem_singleton] at hr
      rw [hr]
      exact ⟨rfl, hcopy⟩

section Surviving

variable {sigma rho pi : Type} [ContentStore rho] [FragmentCodec]

structure Takes (n : Node sigma (WarmTier rho) pi) (k : String)
    (item : Fragment × Option Bytes) : Prop where
  absent : ¬ k ∈ n.fragments
  fetched : n.fetched k = some item
  gone : forall w, (n.taken k).lowerTier = some w -> ¬ w.Holds k item.1

variable {n m : Node sigma (WarmTier rho) pi} {k : String} {item : Fragment × Option Bytes}

theorem Takes.key_eq (h : n.Takes k item) (hfiled : n.Below WarmTier.Filed) :
    item.1.key = k := by
  rcases hfiled with ⟨w, htier, hw⟩
  exact (keyedTier_of_filed htier hw).left k item h.fetched

theorem Takes.below_taken (h : n.Takes k item) (htier : exists w, n.lowerTier = some w) :
    (n.taken k).Below (fun w => ¬ w.Holds k item.1) := by
  rcases htier with ⟨w, htier⟩
  exact ⟨_, lowerTier_taken_of_warm htier k, h.gone _ (lowerTier_taken_of_warm htier k)⟩

variable [ContentStore sigma]

def Survives (n : Node sigma (WarmTier rho) pi) (item : Fragment × Option Bytes) : Prop :=
  n.Secured item ∨ exists w, n.lowerTier = some w ∧ w.Holds item.1.key item.1

theorem survives_iff (h : n.Below (fun w => ¬ w.Holds item.1.key item.1)) :
    n.Survives item <-> n.Secured item := by
  rcases h with ⟨w, htier, hheld⟩
  constructor
  · rintro (hsecured | ⟨other, hother, hholds⟩)
    · exact hsecured
    · cases htier.symm.trans hother
      exact absurd hholds hheld
  · exact Or.inl

variable [InventoryHash]

structure Lost (n : Node sigma (WarmTier rho) pi) (item : Fragment × Option Bytes) :
    Prop extends ReadsResident n where
  absent : ¬ item.1.key ∈ n.fragments
  filed : n.Below WarmTier.Filed
  gone : n.Below (fun w => ¬ w.Holds item.1.key item.1)

theorem Lost.not_survives (h : n.Lost item) : ¬ n.Survives item := by
  rw [survives_iff h.gone]
  exact fun hsecured => h.absent (Dict.mem_of_get? hsecured.resident)

variable [EvictionPolicy pi]

theorem Lost.retrieveKey (h : n.Lost item) {j : String} (hj : j ≠ item.1.key)
    (thread : Thread) (caller : Caller) (times : ReadTimes) :
    (n.retrieveKey thread j caller times).2.Lost item where
  toReadsResident :=
    (retrieveKey_readsResident h.toReadsResident thread j caller times).left
  absent := by
    intro hmem
    rcases h.filed with ⟨w, htier, hw⟩
    rcases mem_of_retrieveKey h.toInvariant (keyedTier_of_filed htier hw).left hmem with
      hsame | hold
    · exact hj hsame.symm
    · exact h.absent hold
  filed := h.filed.retrieveKey (filed_keptBelow _) h.toInvariant h.absent thread j caller times
  gone := h.gone.retrieveKey (not_holds_keptBelow _ _) h.toInvariant h.absent thread j caller
    times

theorem Takes.retrieveKey (h : n.Takes k item) (hn : n.ReadsResident)
    (hfiled : n.Below WarmTier.Filed) {times : ReadTimes}
    (hfresh : times.read ≤ times.promoted + item.1.ttl) (thread : Thread) (caller : Caller) :
    ((n.retrieveKey thread k caller times).2.Survives item <->
        n.Receives item times.evicted) ∧
      (caller.tenant = "" ∨ canRead item.1.tenantId caller = true ->
        (n.retrieveKey thread k caller times).1 = .ok none ->
          (n.retrieveKey thread k caller times).2.Lost item) := by
  have hkey := h.key_eq hfiled
  have htaken := h.below_taken ⟨_, hfiled.choose_spec.left⟩
  have hgone := htaken.retrieveKey_of_taken (not_holds_keptBelow k item.1) hn.toInvariant
    h.absent h.absent thread caller times
  have hresident := (retrieveKey_readsResident hn thread k caller times).left
  have hlater := hfiled.retrieveKey (filed_keptBelow k) hn.toInvariant h.absent thread k caller
    times
  have hlost : ¬ k ∈ (n.retrieveKey thread k caller times).2.fragments ->
      (n.retrieveKey thread k caller times).2.Lost item := by
    intro habsent
    subst hkey
    exact ⟨hresident, habsent, hlater, hgone⟩
  by_cases hsilent : n.Silent k
  · have habsent : ¬ k ∈ (n.retrieveKey thread k caller times).2.fragments := by
      rw [retrieveKey_of_silent hn.cached hsilent]
      show ¬ k ∈ (n.asked k).table.fragments
      rw [asked_table]
      exact h.absent
    refine ⟨⟨fun hsurvives => absurd hsurvives (hlost habsent).not_survives,
      fun hreceives => ?_⟩, fun _ _ => hlost habsent⟩
    exact absurd hreceives.accepts (hsilent.refused item h.fetched)
  · rcases fetched_of_not_silent h.absent hsilent with
      ⟨other, hother, hcases⟩
    cases h.fetched.symm.trans hother
    rcases hcases with ⟨e, hput⟩ | ⟨filled, hput, haccepts⟩
    · have hread : n.retrieveKey thread k caller times = (.error e, n.taken k) := by
        rw [retrieveKey_of_not_mem h.absent, promote_of_some h.fetched, hput]
      have habsent : ¬ k ∈ (n.retrieveKey thread k caller times).2.fragments := by
        rw [hread]
        exact h.absent
      refine ⟨⟨fun hsurvives => absurd hsurvives (hlost habsent).not_survives,
        fun hreceives => ?_⟩, fun _ _ => hlost habsent⟩
      rcases putPromoted_ok_congr (n := n) (m := n.taken k) rfl hreceives.put with
        ⟨filled, hfilled⟩
      cases hput.symm.trans hfilled
    · have hread := retrieveKey_of_accepts h.absent h.fetched hkey hput haccepts hn hfresh
        thread caller
      refine ⟨?_, ?_⟩
      · rw [← hkey] at hgone
        rw [← hkey, survives_iff hgone, hkey, hread, Secured.withLookup_iff]
        exact promote_secured_iff h.absent h.fetched hkey hput haccepts hn.toInvariant times
      · intro hreadable hnone
        rw [hread] at hnone
        rw [if_neg] at hnone
        · cases hnone
        · rintro ⟨hcaller, hrefused⟩
          rcases hreadable with hinternal | hallowed
          · exact hcaller hinternal
          · rw [hallowed] at hrefused
            cases hrefused

/-!
# Reads of a string
-/

variable {thread : Thread} {h : String} {caller : Caller}
  {ownTimes times otherTimes : ReadTimes} {r : KeyRead sigma (WarmTier rho) pi}

theorem defaultReads_cases (hr : r ∈ n.defaultReads thread h caller times otherTimes) :
    r = { node := n, key := h, times := times } ∨
      r.node = (n.retrieveKey thread h caller times).2 ∧
        r.node.table.anyTenantCopy h = some r.key := by
  rcases List.mem_cons.mp hr with hfirst | hrest
  · exact Or.inl hfirst
  · right
    split at hrest
    · rename_i read heq
      split_ifs at hrest
      · rw [heq]
        exact otherReads_spec hrest
      · cases hrest
    · cases hrest

theorem Lost.retrieveDefault (hlost : n.Lost item) (hkey : h ≠ item.1.key) :
    (n.retrieveDefault thread h caller times otherTimes).2.Lost item := by
  refine (retrieveDefault_of_reads (fun read => read.2.Lost item) ?_ hlost).right
  intro r hr hbefore
  apply hbefore.retrieveKey
  rcases defaultReads_cases hr with hfirst | ⟨_, hcopy⟩
  · rw [hfirst]
    exact hkey
  · exact fun hsame =>
      hbefore.absent (hsame ▸ mem_of_anyTenantCopy hbefore.toConsistent hcopy)

theorem Lost.retrieveOther (hlost : n.Lost item) :
    (n.retrieveOther thread h caller otherTimes).2.Lost item := by
  refine (retrieveOther_of_reads (fun read => read.2.Lost item) ?_ hlost).right
  intro r hr hbefore
  apply hbefore.retrieveKey
  have hcopy := mem_of_anyTenantCopy hbefore.toConsistent (otherReads_spec hr).right
  exact fun hsame => hbefore.absent (hsame ▸ hcopy)

theorem Takes.retrieveDefault (htakes : r.node.Takes r.key item)
    (hr : r ∈ n.defaultReads thread h caller times otherTimes) (hn : n.ReadsResident)
    (hfiled : n.Below WarmTier.Filed) (hbare : ¬ keySeparator ∈ h.toList)
    (hfresh : r.times.read ≤ r.times.promoted + item.1.ttl) :
    (n.retrieveDefault thread h caller times otherTimes).2.Survives item <->
      r.node.Receives item r.times.evicted := by
  rcases defaultReads_cases hr with hfirst | ⟨hnode, hcopy⟩
  · subst hfirst
    rcases htakes.retrieveKey hn hfiled hfresh thread caller with ⟨hsurvives, hnone⟩
    have hreadable : canRead item.1.tenantId caller = true := by
      apply canRead_of_key (by decide) hbare (Or.inr rfl)
      exact htakes.key_eq hfiled
    unfold Node.retrieveDefault
    split
    · rename_i read heq
      have hlost := hnone (Or.inr hreadable) (by rw [heq])
      rw [heq] at hlost hsurvives
      rw [← hsurvives]
      split_ifs
      · exact ⟨fun hafter => absurd hafter hlost.retrieveOther.not_survives,
          fun hafter => absurd hafter hlost.not_survives⟩
      · rfl
    · exact hsurvives
  · have hread := (retrieveKey_readsResident hn thread h caller times).left
    rw [← hnode] at hread
    exact absurd (mem_of_anyTenantCopy hread.toConsistent hcopy) htakes.absent

/-- An unexpired fragment that a read takes out of the warm tier is resident with its bytes
or in the tier afterwards exactly when the node receives it. -/
theorem retrieve_survives_iff (hn : n.ReadsResident) (hfiled : n.Below WarmTier.Filed)
    (hcaller : ¬ keySeparator ∈ caller.tenant.toList)
    (hr : r ∈ n.keyReads thread h caller ownTimes times otherTimes)
    (htakes : r.node.Takes r.key item) (hfresh : r.times.read ≤ r.times.promoted + item.1.ttl) :
    (n.retrieve thread h caller ownTimes times otherTimes).2.Survives item <->
      r.node.Receives item r.times.evicted := by
  unfold keyReads at hr
  unfold Node.retrieve
  split_ifs at hr ⊢ with hseparator hnamed
  · rw [List.mem_singleton] at hr
    subst hr
    exact (htakes.retrieveKey hn hfiled hfresh thread caller).left
  · rcases List.mem_cons.mp hr with hown | hrest
    · subst hown
      rcases htakes.retrieveKey hn hfiled hfresh thread caller with ⟨hsurvives, hnone⟩
      have hreadable : canRead item.1.tenantId caller = true :=
        canRead_of_key hcaller hseparator (Or.inl rfl) (htakes.key_eq hfiled)
      split
      · rename_i read heq
        have hlost := hnone (Or.inr hreadable) (by rw [heq])
        rw [heq] at hlost hsurvives
        have hkey : h ≠ item.1.key := by
          rw [htakes.key_eq hfiled]
          exact (fragmentKey_ne_payloadHash hnamed.right h).symm
        rw [← hsurvives]
        exact ⟨fun hafter => absurd hafter (hlost.retrieveDefault hkey).not_survives,
          fun hafter => absurd hafter hlost.not_survives⟩
      · exact hsurvives
    · have hempty : ¬ "" ∈ n.fragments := by
        intro hmem
        rcases (Dict.mem_iff_exists_get? _ _).mp hmem with ⟨f, hf⟩
        exact f.key_ne_empty (hn.bookkeeping.keyed "" f hf)
      have hread := (retrieveKey_readsResident hn thread (fragmentKey caller.tenant h) caller
        ownTimes).left
      have hlater := hfiled.retrieveKey (filed_keptBelow "") hn.toInvariant hempty thread
        (fragmentKey caller.tenant h) caller ownTimes
      rcases heq : n.retrieveKey thread (fragmentKey caller.tenant h) caller ownTimes with
        ⟨answer, read⟩
      rw [heq] at hread hlater hrest
      cases answer with
      | error e => cases hrest
      | ok found =>
        cases found with
        | some g => cases hrest
        | none => exact htakes.retrieveDefault hrest hread hlater hseparator hfresh
  · exact htakes.retrieveDefault hr hn hfiled hseparator hfresh

end Surviving

section Recovering

attribute [local instance] InventoryHash.constant FragmentCodec.unreadable

theorem recovered_survives :
    ((create (warmConfig acmeCopy)).retrieve 0 "acme:h" (member "acme") (readAt 1) (readAt 1)
      (readAt 1)).2.Survives (acmeCopy, none) := by
  have hfiled : (create (warmConfig acmeCopy)).Below WarmTier.Filed :=
    ⟨_, rfl, (WarmTier.create_filed (fun _ => rfl) _ _).demoteLater acmeCopy none⟩
  have htakes : (create (warmConfig acmeCopy)).Takes "acme:h" (acmeCopy, none) := by
    refine
      { absent := by decide
        fetched := by decide +kernel
        gone := ?_ }
    intro w hw
    cases hw
    rintro (⟨payload, hpending⟩ | ⟨hlisted, _⟩)
    · cases hpending
    · cases hlisted
  refine (retrieve_survives_iff (create_readsResident _) hfiled (by decide)
    (List.mem_singleton.mpr rfl) htakes (by decide +kernel)).mpr ?_
  exact
    { put := ⟨_, rfl⟩
      accepts := by
        refine ⟨by decide +kernel, by decide⟩
      bytes := fun ref href => (nomatch href)
      kept := fun ref href => (nomatch href) }

def spent : Node InProcessBytes (WarmTier InProcessBytes) WeightedLRU :=
  (create (warmConfig publicCopy)).call (storing publicOther)

theorem spent_not_survives :
    spent.fetched "h" = some (publicCopy, none) ∧
      (spent.retrieve 0 "h" Caller.internal (readAt 1) (readAt 1) (readAt 1)).1 =
        .ok none ∧
      ¬ "h" ∈ (spent.retrieve 0 "h" Caller.internal (readAt 1) (readAt 1)
        (readAt 1)).2.fragments ∧
      (spent.retrieve 0 "h" Caller.internal (readAt 1) (readAt 1)
        (readAt 1)).2.lowerTier.map (fun w => w.contains "h") = some false := by
  decide +kernel

end Recovering

end Node

end Serving
end Membrane
