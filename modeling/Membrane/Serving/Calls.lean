import Membrane.Serving.Eviction

/-!
# What a store and a read do

One specification per call of the node.  A store either stops at a gate, or
refreshes a resident key, or makes room and inserts the fragment.  A read of a
node without a lower tier removes at most the expired fragment it found.
-/

namespace Membrane
namespace Serving

open Foundation Data Store

namespace Node

variable {sigma tau pi : Type}

/-!
# The gates of a store
-/

def PassesGates (n : Node sigma tau pi) (f : Fragment) (caller : Caller) : Prop :=
  checkWrite f.tenantId caller = .ok () ∧ n.refusedByAdmission f = false ∧
    (n.chargeQuota f).1 = true

instance (n : Node sigma tau pi) (f : Fragment) (caller : Caller) :
    Decidable (n.PassesGates f caller) :=
  inferInstanceAs (Decidable (_ ∧ _ ∧ _))

def charged (n : Node sigma tau pi) (f : Fragment) : Node sigma tau pi :=
  (n.chargeQuota f).2.recordTier f

section

variable (n : Node sigma tau pi) (f : Fragment)

theorem chargeQuota_eq :
    (n.chargeQuota f).2 = { n with quotas := (n.chargeQuota f).2.quotas } := by
  unfold chargeQuota
  cases n.quotas.get? f.tenantId with
  | none => rfl
  | some quota =>
    by_cases hfits : (quota.admitPayload f.payloadSize).1
    · simp only [if_pos hfits]
    · simp only [if_neg hfits]

theorem charged_eq :
    n.charged f =
      { n with
        quotas := (n.charged f).quotas
        selectedTiers := (n.charged f).selectedTiers } := by
  unfold charged
  rw [n.chargeQuota_eq f]
  rfl

@[simp] theorem charged_table :
    (n.charged f).table = n.table := by rw [n.charged_eq f]

@[simp] theorem charged_fragments :
    (n.charged f).fragments = n.fragments := by rw [n.charged_eq f]; rfl

@[simp] theorem charged_maxMemoryBytes :
    (n.charged f).maxMemoryBytes = n.maxMemoryBytes := by rw [n.charged_eq f]

@[simp] theorem charged_contentStore :
    (n.charged f).contentStore = n.contentStore := by rw [n.charged_eq f]

@[simp] theorem charged_lowerTier :
    (n.charged f).lowerTier = n.lowerTier := by rw [n.charged_eq f]

end

theorem chargeQuota_of_refused {n : Node sigma tau pi} {f : Fragment}
    (h : (n.chargeQuota f).1 = false) : (n.chargeQuota f).2 = n := by
  unfold chargeQuota at h ⊢
  cases hquota : n.quotas.get? f.tenantId with
  | none => rfl
  | some quota =>
    simp only [hquota] at h ⊢
    by_cases hfits : (quota.admitPayload f.payloadSize).1
    · rw [if_pos hfits] at h
      cases h
    · rw [if_neg hfits]

theorem putPromoted_frame [PayloadStore sigma] {n m : Node sigma tau pi} {f : Fragment}
    {payload : Option Bytes} (h : n.putPromoted f payload = .ok m) :
    m.nodeId = n.nodeId ∧ m.journal = n.journal ∧ m.table = n.table := by
  unfold putPromoted at h
  split at h
  · split at h
    · cases h
    · cases h
      exact ⟨rfl, rfl, rfl⟩
  · cases h
    exact ⟨rfl, rfl, rfl⟩

variable [InventoryHash]

section Inserting

variable {n : Node sigma tau pi} {f : Fragment} {isPrimary : Bool} {now : ℚ}

theorem charged_invariant (hn : n.Invariant) (f : Fragment) :
    (n.charged f).Invariant := by
  rw [n.charged_eq f]
  exact ⟨⟨hn.bookkeeping, hn.tracked⟩, hn.capacity⟩

/-!
# Inserting and refreshing
-/

theorem touch_consistent (hn : n.Consistent) {k : String} (hk : k ∈ n.fragments) :
    (n.touch k now isPrimary).Consistent where
  bookkeeping := FragmentTable.touch_bookkeeping hn.bookkeeping hk now isPrimary
  tracked := by
    apply FragmentTable.touch_accessTracked
    intro j
    rw [hn.tracked j]
    constructor
    · rintro (hj | hj)
      · exact hj
      · rw [hj]
        exact hk
    · exact Or.inl

theorem get?_inserted (k : String) :
    (n.inserted f isPrimary now).fragments.get? k =
      if k = f.key then some f else n.fragments.get? k :=
  n.table.fragments.get?_set f.key f k

theorem mem_inserted (k : String) :
    k ∈ (n.inserted f isPrimary now).fragments <-> k = f.key ∨ k ∈ n.fragments :=
  n.table.fragments.mem_set f.key f k

theorem uses_inserted_iff (hnew : ¬ f.key ∈ n.fragments) (isPrimary : Bool) (now : ℚ)
    (ref : String) :
    Uses (n.inserted f isPrimary now).fragments ref <->
      f.payloadRef = some ref ∨ Uses n.fragments ref := by
  constructor
  · rintro ⟨k, g, hg, href⟩
    rw [get?_inserted] at hg
    split_ifs at hg
    · cases hg
      exact Or.inl href
    · exact Or.inr ⟨k, g, hg, href⟩
  · rintro (href | ⟨k, g, hg, href⟩)
    · exact ⟨f.key, f, by rw [get?_inserted, if_pos rfl], href⟩
    · have hk : k ≠ f.key := by
        intro hk
        rw [hk] at hg
        exact hnew (Dict.mem_of_get? hg)
      exact ⟨k, g, by rw [get?_inserted, if_neg hk]; exact hg, href⟩

theorem inserted_consistent (hn : n.Consistent) (hnew : ¬ f.key ∈ n.fragments) :
    (n.inserted f isPrimary now).Consistent where
  bookkeeping := by
    have hadded := FragmentTable.add_bookkeeping hn.bookkeeping hnew now
    exact FragmentTable.touch_bookkeeping hadded
      ((n.table.fragments.mem_set f.key f f.key).mpr (Or.inl rfl)) now isPrimary
  tracked := by
    apply FragmentTable.touch_accessTracked
    intro j
    show j ∈ n.table.accessTimes ∨ j = f.key <-> j ∈ n.table.fragments.set f.key f
    rw [hn.tracked j, Dict.mem_set]
    exact or_comm

theorem insertFragment_eq [PayloadStore sigma] (hfault : payloadFault sigma f = none) :
    n.insertFragment f isPrimary now = (.ok true, n.inserted f isPrimary now) := by
  unfold insertFragment
  rw [hfault]

end Inserting

variable [PayloadStore sigma]

/-!
# One lookup
-/

theorem withLookup_evicts {n : Node sigma tau pi} (hn : n.Consistent) (thread : Thread)
    (k : String) (now : Option ℚ) : Evicts n [] (n.withLookup thread k now) := by
  unfold withLookup
  rw [n.table.lookup_cachesOnly thread k now]
  exact Evicts.of_unchanged
    ⟨rfl, rfl, rfl, rfl, rfl, rfl, rfl, rfl, rfl, fun h => h⟩
    ⟨hn.bookkeeping.with_reads _ _, hn.tracked⟩ rfl rfl rfl rfl

theorem answerRead_cases (n : Node sigma tau pi) (k : String) (caller : Caller) (now : ℚ)
    (entry : Option CacheEntry) :
    (n.answerRead k caller now entry).2 = n ∨
      n.table.isExpired k now = true ∧
        (n.answerRead k caller now entry).2 = after (n.removeFragment k) := by
  cases entry with
  | none => exact Or.inl rfl
  | some entry =>
    unfold answerRead
    simp only
    split_ifs with _ _ hexpired
    · exact Or.inl rfl
    · refine Or.inr ⟨hexpired, ?_⟩
      cases n.removeFragment k with
      | error raised => rfl
      | ok removed => rfl
    · exact Or.inl rfl
    · exact Or.inl rfl

theorem readKey_cases {sigma : Type} [ContentStore sigma] (n : Node sigma tau pi)
    (thread : Thread) (k : String) (caller : Caller) (now : ℚ) :
    (n.readKey thread k caller now).2 = n.withLookup thread k (some now) ∨
      (n.withLookup thread k (some now)).table.isExpired k now = true ∧ exists f m,
        (n.withLookup thread k (some now)).removeFragment k = .ok (f, m) ∧
          (n.readKey thread k caller now).2 = m := by
  rcases answerRead_cases (n.withLookup thread k (some now)) k caller now
    (n.table.lookup thread k (some now)).1 with hsame | ⟨hexpired, hread⟩
  · exact Or.inl hsame
  cases hremove : (n.withLookup thread k (some now)).removeFragment k with
  | error raised =>
    rw [hremove] at hread
    exact Or.inl (hread.trans (raised_node_of_total hremove))
  | ok removed =>
    rw [hremove] at hread
    exact Or.inr ⟨hexpired, removed.1, removed.2, rfl, hread⟩

theorem readKey_evicts {sigma : Type} [ContentStore sigma] {n : Node sigma tau pi}
    (hn : n.Consistent) (thread : Thread) (k : String) (caller : Caller) (now : ℚ) :
    exists victims, Evicts n victims (n.readKey thread k caller now).2 := by
  have hseen := withLookup_evicts hn thread k (some now)
  rcases n.readKey_cases thread k caller now with hsame | ⟨_, f, m, hremove, hread⟩
  · rw [hsame]
    exact ⟨[], hseen⟩
  · rw [hread]
    exact ⟨_, hseen.trans (removeFragment_evicts hseen.consistent hremove)⟩

variable [LowerTier tau] [EvictionPolicy pi]

/-!
# Stores
-/

section Stores

variable {n : Node sigma tau pi} {f : Fragment} {isPrimary : Bool} {caller : Caller}
variable {now evictTime : ℚ}

theorem store_of_not_passesGates (h : ¬ n.PassesGates f caller) (isPrimary : Bool)
    (now evictTime : ℚ) :
    (n.store f isPrimary caller now evictTime).1 ≠ .ok true ∧
      (n.store f isPrimary caller now evictTime).2 = n := by
  unfold store
  cases hwrite : checkWrite f.tenantId caller with
  | error e => exact ⟨nofun, rfl⟩
  | ok _ =>
    by_cases hadmission : n.refusedByAdmission f = true
    · simp only [if_pos hadmission]
      exact ⟨nofun, trivial⟩
    · have hquota : (n.chargeQuota f).1 = false := by
        by_contra hpassed
        exact h ⟨hwrite, Bool.eq_false_iff.mpr hadmission,
          Bool.eq_true_of_not_eq_false hpassed⟩
      simp only [if_neg hadmission, if_pos hquota]
      exact ⟨nofun, chargeQuota_of_refused hquota⟩

theorem store_of_passesGates (h : n.PassesGates f caller) :
    n.store f isPrimary caller now evictTime =
      if (n.maxMemoryBytes : Int) < f.payloadSize then (.ok false, n.charged f)
      else (n.charged f).storeLocked f isPrimary now evictTime := by
  rcases h with ⟨hwrite, hadmission, hquota⟩
  unfold store
  simp only [hwrite, hadmission, hquota, Bool.true_eq_false, Bool.false_eq_true, if_false]
  rfl

def Inserts (n : Node sigma tau pi) (f : Fragment) (caller : Caller) : Prop :=
  n.PassesGates f caller ∧ f.payloadSize ≤ n.maxMemoryBytes ∧ ¬ f.key ∈ n.fragments

/-- What removals keep and an insertion turns into the result is the result of a store
that inserts only what has an address. -/
theorem KeptByRemovals.store {holds : Node sigma tau pi -> Prop} (hkept : KeptByRemovals holds)
    (result : Node sigma tau pi -> Prop)
    (hfault : n.Inserts f caller -> payloadFault sigma f = none) (hn : result n)
    (hcharged : result (n.charged f))
    (htouched : f.key ∈ n.fragments -> result ((n.charged f).touch f.key now isPrimary))
    (hstart : ¬ f.key ∈ n.fragments -> holds (n.charged f))
    (hend : forall room, holds room -> result room ∧ (payloadFault sigma f = none ->
      room.table.memoryUsage + f.payloadSize ≤ room.maxMemoryBytes ->
      result (room.inserted f isPrimary now))) :
    result (n.store f isPrimary caller now evictTime).2 := by
  by_cases hgates : n.PassesGates f caller
  · rw [store_of_passesGates hgates]
    split_ifs with hlarge
    · exact hcharged
    unfold storeLocked
    rw [charged_fragments]
    split_ifs with hk hfull
    · exact htouched hk
    · have hfault := hfault ⟨hgates, not_lt.mp hlarge, hk⟩
      have hroom := hend _ (hkept.evict (hstart hk) f.payloadSize evictTime)
      cases hevict : (n.charged f).evict f.payloadSize evictTime with
      | error raised =>
        rw [hevict] at hroom
        exact hroom.left
      | ok evicted =>
        rw [hevict] at hroom
        simp only [insertFragment_eq hfault]
        split_ifs with hfull
        · exact hroom.left
        · exact hroom.right hfault (not_lt.mp hfull)
    · have hfault := hfault ⟨hgates, not_lt.mp hlarge, hk⟩
      rw [insertFragment_eq hfault]
      exact (hend _ (hstart hk)).right hfault (not_lt.mp hfull)
  · rw [(store_of_not_passesGates hgates isPrimary now evictTime).right]
    exact hn

theorem store_invariant_of (hfault : n.Inserts f caller -> payloadFault sigma f = none)
    (hn : n.Invariant) :
    (n.store f isPrimary caller now evictTime).2.Invariant := by
  have hcharged := charged_invariant hn f
  apply (invariant_keptByRemovals.and (absent_keptByRemovals f.key)).store
    (fun m => m.Invariant) hfault hn hcharged
  · intro hk
    rw [← charged_fragments] at hk
    exact ⟨touch_consistent hcharged.toConsistent hk, hcharged.capacity⟩
  · intro hk
    rw [← charged_fragments] at hk
    exact ⟨hcharged, hk⟩
  · intro room hroom
    exact ⟨hroom.left, fun _ hfits =>
      ⟨inserted_consistent hroom.left.toConsistent hroom.right, hfits⟩⟩

/-!
# Making room
-/

def plannedVictims (n : Node sigma tau pi) (f : Fragment) (evictTime : ℚ) :
    List String :=
  if (n.maxMemoryBytes : Int) < n.table.memoryUsage + f.payloadSize then
    match n.evict f.payloadSize evictTime with
    | .error _ => []
    | .ok (evicted, _) => evicted
  else []

theorem storeLocked_of_mem (hk : f.key ∈ n.fragments) :
    n.storeLocked f isPrimary now evictTime =
      (.ok true, n.touch f.key now isPrimary) := by
  unfold storeLocked
  rw [if_pos hk]

theorem storeLocked_of_not_mem (haddressed : n.Addressed) (hn : n.Invariant)
    (hk : ¬ f.key ∈ n.fragments) (hsize : f.payloadSize ≤ n.maxMemoryBytes) :
    exists victims room, victims.map Prod.fst = n.plannedVictims f evictTime ∧
      Evicts n victims room ∧
      room.table.memoryUsage + f.payloadSize ≤ room.maxMemoryBytes ∧
      n.storeLocked f isPrimary now evictTime = room.insertFragment f isPrimary now := by
  have hcapacity := hn.capacity
  unfold storeLocked plannedVictims
  rw [if_neg hk]
  by_cases hfull : (n.maxMemoryBytes : Int) < n.table.memoryUsage + f.payloadSize
  · simp only [if_pos hfull]
    rcases evict_evicts haddressed hn.toConsistent f.payloadSize evictTime with
      ⟨victims, room, hevict, hevicts, hfreed⟩
    have hroom : room.table.memoryUsage + f.payloadSize ≤ room.maxMemoryBytes := by
      rw [hevicts.frame.maxMemoryBytes]
      rcases hfreed with hfreed | hempty
      · rw [hevicts.memory]
        omega
      · rw [hevicts.consistent.memoryUsage_of_empty hempty, Int.zero_add]
        exact hsize
    refine ⟨victims, room, ?_, hevicts, hroom, ?_⟩
    · rw [hevict]
    · simp only [hevict]
      rw [if_neg (by omega)]
  · simp only [if_neg hfull]
    exact ⟨[], n, rfl, Evicts.refl hn.toConsistent, by omega, rfl⟩

end Stores

section TotalStores

variable {sigma : Type} [ContentStore sigma] {n : Node sigma tau pi} {f : Fragment}
variable {isPrimary : Bool} {caller : Caller} {now evictTime : ℚ}

section

variable (hn : n.Invariant)

include hn

/-- Everything a store can do.  It stops at a gate, it is too large, it refreshes
a resident key, or it makes room and inserts the fragment. -/
theorem store_cases (f : Fragment) (isPrimary : Bool) (caller : Caller) (now evictTime : ℚ) :
    (¬ n.PassesGates f caller ∧
      (n.store f isPrimary caller now evictTime).1 ≠ .ok true ∧
      (n.store f isPrimary caller now evictTime).2 = n) ∨
    (n.PassesGates f caller ∧ (n.maxMemoryBytes : Int) < f.payloadSize ∧
      n.store f isPrimary caller now evictTime = (.ok false, n.charged f)) ∨
    (n.PassesGates f caller ∧ f.payloadSize ≤ n.maxMemoryBytes ∧ f.key ∈ n.fragments ∧
      n.store f isPrimary caller now evictTime =
        (.ok true, (n.charged f).touch f.key now isPrimary)) ∨
    (n.PassesGates f caller ∧ f.payloadSize ≤ n.maxMemoryBytes ∧ ¬ f.key ∈ n.fragments ∧
      exists victims room,
        victims.map Prod.fst = (n.charged f).plannedVictims f evictTime ∧
        Evicts (n.charged f) victims room ∧ ¬ f.key ∈ room.fragments ∧
        room.table.memoryUsage + f.payloadSize ≤ room.maxMemoryBytes ∧
        n.store f isPrimary caller now evictTime =
          (.ok true, room.inserted f isPrimary now)) := by
  by_cases hgates : n.PassesGates f caller
  · right
    rw [store_of_passesGates hgates]
    by_cases hlarge : (n.maxMemoryBytes : Int) < f.payloadSize
    · rw [if_pos hlarge]
      exact Or.inl ⟨hgates, hlarge, rfl⟩
    · right
      rw [if_neg hlarge]
      by_cases hk : f.key ∈ n.fragments
      · left
        refine ⟨hgates, by omega, hk, storeLocked_of_mem ?_⟩
        rw [charged_fragments]
        exact hk
      · right
        have hk' : ¬ f.key ∈ (n.charged f).fragments := by
          rw [charged_fragments]
          exact hk
        rcases storeLocked_of_not_mem (addressed _) (charged_invariant hn f) hk'
          (by rw [charged_maxMemoryBytes]; omega) with
          ⟨victims, room, hplan, hevicts, hroom, hstored⟩
        refine ⟨hgates, by omega, hk, victims, room, hplan, hevicts,
          fun h => hk' (hevicts.mem_of_remaining h), hroom, ?_⟩
        rw [hstored, insertFragment_eq (payloadFault_of_total f)]
  · exact Or.inl ⟨hgates, store_of_not_passesGates hgates isPrimary now evictTime⟩

theorem store_invariant : (n.store f isPrimary caller now evictTime).2.Invariant :=
  store_invariant_of (fun _ => payloadFault_of_total f) hn

/-- Whatever holds of each node that a store can leave behind. -/
theorem store_preserves (holds : Node sigma tau pi -> Prop) (hsame : holds n)
    (hcharged : holds (n.charged f))
    (htouched : holds ((n.charged f).touch f.key now isPrimary))
    (hinserted : forall victims room, Evicts (n.charged f) victims room ->
      holds (room.inserted f isPrimary now)) :
    holds (n.store f isPrimary caller now evictTime).2 := by
  rcases store_cases hn f isPrimary caller now evictTime with
    ⟨_, _, hstore⟩ | ⟨_, _, hstore⟩ | ⟨_, _, _, hstore⟩ |
      ⟨_, _, _, victims, room, _, hevicts, _, _, hstore⟩
  · rw [hstore]
    exact hsame
  · rw [hstore]
    exact hcharged
  · rw [hstore]
    exact htouched
  · rw [hstore]
    exact hinserted victims room hevicts

theorem store_lowerTier (htier : n.lowerTier = none) :
    (n.store f isPrimary caller now evictTime).2.lowerTier = none := by
  have hcharged := (n.charged_lowerTier f).trans htier
  exact store_preserves hn (fun n => n.lowerTier = none) htier hcharged hcharged
    (fun _ _ hevicts => hevicts.frame.lowerTier hcharged)

end

def Accepts (n : Node sigma tau pi) (f : Fragment) (caller : Caller) : Prop :=
  n.PassesGates f caller ∧ f.payloadSize ≤ n.maxMemoryBytes

theorem store_eq_true_iff (hn : n.Invariant) (f : Fragment) (isPrimary : Bool)
    (caller : Caller) (now evictTime : ℚ) :
    (n.store f isPrimary caller now evictTime).1 = .ok true <->
      n.Accepts f caller := by
  rcases store_cases hn f isPrimary caller now evictTime with
    ⟨hgates, hresult, _⟩ | ⟨_, hlarge, hstore⟩ | ⟨hgates, hfits, _, hstore⟩ |
      ⟨hgates, hfits, _, _, _, _, _, _, _, hstore⟩
  · exact ⟨fun h => absurd h hresult, fun h => absurd h.left hgates⟩
  · rw [hstore]
    refine ⟨fun h => ?_, fun h => absurd hlarge (not_lt.mpr h.right)⟩
    cases h
  · rw [hstore]
    exact ⟨fun _ => ⟨hgates, hfits⟩, fun _ => rfl⟩
  · rw [hstore]
    exact ⟨fun _ => ⟨hgates, hfits⟩, fun _ => rfl⟩

def Declined (n : Node sigma tau pi) (f : Fragment) (caller : Caller) : Prop :=
  checkWrite f.tenantId caller = .ok () ∧
    (¬ n.PassesGates f caller ∨ (n.maxMemoryBytes : Int) < f.payloadSize)

theorem store_of_declined (hgates : ¬ n.PassesGates f caller)
    (hwrite : checkWrite f.tenantId caller = .ok ()) :
    (n.store f isPrimary caller now evictTime).1 = .ok false := by
  unfold store
  rw [hwrite]
  cases hadmission : n.refusedByAdmission f with
  | true => simp
  | false =>
    have hquota : (n.chargeQuota f).1 = false := by
      by_contra hcharged
      exact hgates ⟨hwrite, hadmission, by simpa using hcharged⟩
    simp [hquota]

section

variable (hn : n.Invariant) (f : Fragment) (isPrimary : Bool) (caller : Caller)
  (now evictTime : ℚ)

include hn

theorem store_eq_false_iff :
    (n.store f isPrimary caller now evictTime).1 = .ok false <->
      n.Declined f caller := by
  by_cases hgates : n.PassesGates f caller
  · have htrue := store_eq_true_iff hn f isPrimary caller now evictTime
    rw [store_of_passesGates hgates] at htrue ⊢
    split_ifs at htrue ⊢ with hlarge
    · exact ⟨fun _ => ⟨hgates.left, Or.inr hlarge⟩, fun _ => rfl⟩
    · rw [htrue.mpr ⟨hgates, not_lt.mp hlarge⟩]
      constructor
      · intro h
        cases h
      · intro h
        rcases h.right with hno | hyes
        · exact absurd hgates hno
        · exact absurd hyes hlarge
  · cases hwrite : checkWrite f.tenantId caller with
    | error e =>
      have hresult : (n.store f isPrimary caller now evictTime).1 =
          .error (.tenantScope e) := by
        unfold store
        rw [hwrite]
      rw [hresult]
      constructor
      · intro h
        cases h
      · intro h
        have hwritten := h.left
        rw [hwrite] at hwritten
        cases hwritten
    | ok _ =>
      exact ⟨fun _ => ⟨hwrite, Or.inl hgates⟩, fun _ => store_of_declined hgates hwrite⟩

theorem mem_store_iff :
    f.key ∈ (n.store f isPrimary caller now evictTime).2.fragments <->
      f.key ∈ n.fragments ∨
        (n.store f isPrimary caller now evictTime).1 = .ok true := by
  rcases store_cases hn f isPrimary caller now evictTime with
    ⟨_, hresult, hsame⟩ | ⟨_, _, hstore⟩ | ⟨_, _, hk, hstore⟩ |
      ⟨_, _, _, _, room, _, _, _, _, hstore⟩
  · rw [hsame]
    simp [hresult]
  · rw [hstore]
    simp
  · rw [hstore]
    exact ⟨fun _ => Or.inl hk, fun _ => (charged_fragments n f).symm ▸ hk⟩
  · rw [hstore]
    exact ⟨fun _ => Or.inr rfl, fun _ => (mem_inserted _).mpr (Or.inl rfl)⟩

end

theorem get?_of_store (hn : n.Invariant) {k : String} {g : Fragment}
    (hg : (n.store f isPrimary caller now evictTime).2.fragments.get? k = some g) :
    n.fragments.get? k = some g ∨ k = f.key ∧ g = f := by
  have hcharged := charged_fragments n f
  refine store_preserves hn (fun n' => n'.fragments.get? k = some g ->
    n.fragments.get? k = some g ∨ k = f.key ∧ g = f) Or.inl (fun hg => Or.inl (hcharged ▸ hg))
    (fun hg => Or.inl (hcharged ▸ hg)) ?_ hg
  intro victims room hevicts hg
  rw [get?_inserted] at hg
  split_ifs at hg with hk
  · exact Or.inr ⟨hk, (Option.some.inj hg).symm⟩
  · exact Or.inl (hcharged ▸ hevicts.get?_of_remaining hg)

theorem mem_of_store (hn : n.Invariant) {k : String}
    (hk : k ∈ (n.store f isPrimary caller now evictTime).2.fragments) :
    k = f.key ∨ k ∈ n.fragments := by
  rcases (Dict.mem_iff_exists_get? _ _).mp hk with ⟨g, hg⟩
  rcases get?_of_store hn hg with hold | ⟨hnew, _⟩
  · exact Or.inr (Dict.mem_of_get? hold)
  · exact Or.inl hnew

theorem store_then_remove (hn : n.Invariant) (hk : ¬ f.key ∈ n.fragments)
    (hstored : (n.store f isPrimary caller now evictTime).1 = .ok true) :
    exists victims room n',
      victims.map Prod.fst = (n.charged f).plannedVictims f evictTime ∧
      Evicts (n.charged f) victims room ∧ ¬ f.key ∈ room.fragments ∧
      (n.store f isPrimary caller now evictTime).2 = room.inserted f isPrimary now ∧
      (room.inserted f isPrimary now).removeFragment f.key = .ok (f, n') ∧
      Evicts (room.inserted f isPrimary now) [(f.key, f)] n' := by
  rcases store_cases hn f isPrimary caller now evictTime with
    ⟨_, hfalse, _⟩ | ⟨_, _, hstore⟩ | ⟨_, _, hmem, _⟩ |
      ⟨_, _, _, victims, room, hplan, hevicts, hnew, _, hstore⟩
  · exact absurd hstored hfalse
  · rw [hstore] at hstored
    cases hstored
  · exact absurd hmem hk
  · have hinserted : (room.inserted f isPrimary now).Consistent :=
      inserted_consistent hevicts.consistent hnew
    have hresident : f.key ∈ (room.inserted f isPrimary now).fragments :=
      (mem_inserted f.key).mpr (Or.inl rfl)
    rcases removeFragment_of_mem (addressed _) hresident with ⟨g, n', hremove⟩
    have hg : g = f := by
      have hget := (removeFragment_fragments hremove).left
      rw [get?_inserted, if_pos rfl] at hget
      cases hget
      rfl
    subst hg
    exact ⟨victims, room, n', hplan, hevicts, hnew, by rw [hstore], hremove,
      removeFragment_evicts hinserted hremove⟩

end TotalStores

/-!
# Reads
-/

section Reads

variable {n : Node sigma tau pi}

structure KeptByReads (holds : Node sigma tau pi -> Prop) : Prop
    extends KeptByRemovals holds where
  lookup : forall m thread k now, holds m -> holds (m.withLookup thread k now)
  taken : forall m tier, holds m -> holds { m with lowerTier := some tier }
  filled : forall m contentStore, holds m -> holds { m with contentStore := contentStore }

/-- A property that the parts of a call keep. -/
structure KeptBySteps (holds : Node sigma tau pi -> Prop) : Prop
    extends KeptByReads holds where
  store : forall m f isPrimary caller now evictTime,
    (m.Inserts f caller -> payloadFault sigma f = none) -> holds m ->
    holds (m.store f isPrimary caller now evictTime).2

def Promotes (n : Node sigma tau pi) (k : String) (f : Fragment) : Prop :=
  exists tier payload, n.lowerTier = some tier ∧
    (LowerTier.promote tier k).1 = some (f, payload)

section

variable {holds : Node sigma tau pi -> Prop} (hkept : KeptByReads holds)

include hkept

omit [EvictionPolicy pi] in
theorem KeptByReads.putPromoted {f : Fragment} {payload : Option Bytes}
    {filled : Node sigma tau pi} (h : n.putPromoted f payload = .ok filled) (hn : holds n) :
    holds filled := by
  unfold Node.putPromoted at h
  split at h
  · split at h
    · cases h
    · cases h
      exact hkept.filled n _ hn
  · cases h
    exact hn

variable (hn : holds n) (thread : Thread) (k : String) (caller : Caller)

include hn

omit [EvictionPolicy pi] in
theorem KeptByReads.readKey (now : ℚ) : holds (n.readKey thread k caller now).2 := by
  have hseen := hkept.lookup n thread k (some now) hn
  rcases answerRead_cases (n.withLookup thread k (some now)) k caller now
    (n.table.lookup thread k (some now)).1 with hsame | ⟨_, hread⟩
  · exact (congrArg holds hsame).mpr hseen
  · exact (congrArg holds hread).mpr (hkept.removeFragment hseen k)

/-- What a promotion and a read of a key keep, if the store of what is promoted does. -/
theorem KeptByReads.promote {times : ReadTimes}
    (hstore : forall m f, n.Promotes k f -> holds m ->
      holds (m.store f false Caller.internal times.promoted times.evicted).2) :
    holds (n.promote k times).2 := by
  unfold Node.promote
  cases htier : n.lowerTier with
  | none => exact hn
  | some tier =>
    have htaken := hkept.taken n (LowerTier.promote tier k).2 hn
    simp only
    cases hpromoted : (LowerTier.promote tier k).1 with
    | none => exact htaken
    | some promoted =>
      simp only
      split
      · exact htaken
      · rename_i hput
        exact hstore _ _ ⟨tier, promoted.2, htier, hpromoted⟩
          (hkept.putPromoted hput htaken)

theorem KeptByReads.retrieveKey {times : ReadTimes}
    (hstore : ¬ k ∈ n.fragments -> forall m f, n.Promotes k f -> holds m ->
      holds (m.store f false Caller.internal times.promoted times.evicted).2) :
    holds (n.retrieveKey thread k caller times).2 := by
  unfold Node.retrieveKey
  split_ifs with hconsulted
  · have hpromoted := hkept.promote hn k (hstore hconsulted.right)
    split
    · rename_i heq
      rw [heq] at hpromoted
      exact hpromoted
    · rename_i heq
      rw [heq] at hpromoted
      exact hkept.readKey hpromoted thread k caller times.read
  · exact hkept.readKey hn thread k caller times.read

end

section

variable {holds : Node sigma tau pi -> Prop} (hkept : KeptBySteps holds) (hn : holds n)
  (thread : Thread) (k : String) (caller : Caller)
  (hfault : forall f, n.Promotes k f -> payloadFault sigma f = none)
  (times : ReadTimes)

include hkept hn hfault

theorem KeptBySteps.promote : holds (n.promote k times).2 :=
  hkept.toKeptByReads.promote hn k (fun m f hpromotes hm =>
    hkept.store m f _ _ _ _ (fun _ => hfault f hpromotes) hm)

theorem KeptBySteps.retrieveKey : holds (n.retrieveKey thread k caller times).2 :=
  hkept.toKeptByReads.retrieveKey hn thread k caller (fun _ m f hpromotes hm =>
    hkept.store m f _ _ _ _ (fun _ => hfault f hpromotes) hm)

end

section Evicting

variable {sigma : Type} [ContentStore sigma] {holds : Node sigma tau pi -> Prop}
  (hconsistent : forall m, holds m -> m.Consistent)
  (hevicts : forall m victims m', Evicts m victims m' -> holds m -> holds m')
  (htaken : forall m tier, holds m -> holds { m with lowerTier := some tier })
  (hfilled : forall m contentStore, holds m -> holds { m with contentStore := contentStore })

include hconsistent hevicts htaken hfilled

omit [EvictionPolicy pi] in
/-- The removals and the lookups are evictions, so it is enough to show that those keep a
property of consistent nodes. -/
theorem keptByReads_of_evicts : KeptByReads holds where
  demoted m k h := hevicts _ _ _ (demoted_evicts (hconsistent m h) k) h
  remove m _ _ _ hremove h := hevicts _ _ _ (removeFragment_evicts (hconsistent m h) hremove) h
  raised _ _ _ hremove h := (congrArg holds (raised_node_of_total hremove)).mpr h
  mergeReads m h := hevicts _ _ _ (mergeReads_evicts (hconsistent m h)) h
  callbacks m evicted reason h :=
    hevicts _ _ _ (fireEvictionCallbacks_evicts (hconsistent m h) evicted reason) h
  lookup m thread k now h := hevicts _ _ _ (withLookup_evicts (hconsistent m h) thread k now) h
  taken := htaken
  filled := hfilled

theorem keptBySteps_of_evicts
    (hstore : forall m f isPrimary caller now evictTime, holds m ->
      holds (m.store f isPrimary caller now evictTime).2) : KeptBySteps holds where
  toKeptByReads := keptByReads_of_evicts hconsistent hevicts htaken hfilled
  store m f isPrimary caller now evictTime _ h := hstore m f isPrimary caller now evictTime h

end Evicting

theorem invariant_keptBySteps : KeptBySteps (fun n : Node sigma tau pi => n.Invariant) where
  toKeptByRemovals := invariant_keptByRemovals
  lookup _ thread k now hm := (withLookup_evicts hm.toConsistent thread k now).invariant hm
  taken _ _ hm := ⟨⟨hm.bookkeeping, hm.tracked⟩, hm.capacity⟩
  filled _ _ hm := ⟨⟨hm.bookkeeping, hm.tracked⟩, hm.capacity⟩
  store _ _ _ _ _ _ hfault hm := store_invariant_of hfault hm

theorem addressed_keptBySteps : KeptBySteps (fun n : Node sigma tau pi => n.Addressed) where
  toKeptByRemovals := addressed_keptByRemovals
  lookup m thread k now hm := by
    have hcaches := m.table.lookup_cachesOnly thread k now
    intro j f hf
    apply hm j f
    rw [← hf]
    show m.table.fragments.get? j = (m.table.lookup thread k now).2.fragments.get? j
    rw [hcaches]
  taken _ _ hm := hm
  filled _ _ hm := hm
  store m f isPrimary caller now evictTime hfault hm := by
    have hcharged : (m.charged f).Addressed :=
      fun k g hg => hm k g (charged_fragments m f ▸ hg)
    refine addressed_keptByRemovals.store (fun m => m.Addressed) hfault hm hcharged
      (fun _ => hcharged) (fun _ => hcharged) (fun room hroom => ⟨hroom, fun hnone _ => ?_⟩)
    intro k g hg
    rw [get?_inserted] at hg
    split_ifs at hg
    · cases hg
      exact hnone
    · exact hroom k g hg

theorem retrieveKey_evicts {sigma : Type} [ContentStore sigma] {n : Node sigma tau pi}
    (hn : n.Consistent) (htier : n.lowerTier = none) (thread : Thread) (k : String)
    (caller : Caller) (times : ReadTimes) :
    exists victims, Evicts n victims (n.retrieveKey thread k caller times).2 := by
  unfold retrieveKey
  rw [if_neg (by simp [htier])]
  exact readKey_evicts hn thread k caller times.read

/-!
# The key reads of a read
-/

structure KeyRead (sigma tau pi : Type) where
  node : Node sigma tau pi
  key : String
  times : ReadTimes

def otherReads (n : Node sigma tau pi) (contentHash : String) (caller : Caller)
    (times : ReadTimes) : List (KeyRead sigma tau pi) :=
  if caller.tenant ≠ "" ∧ hasAdminScope caller.scopes = false then []
  else
    match n.table.anyTenantCopy contentHash with
    | none => []
    | some other => [{ node := n, key := other, times := times }]

def defaultReads (n : Node sigma tau pi) (thread : Thread) (contentHash : String)
    (caller : Caller) (times otherTimes : ReadTimes) : List (KeyRead sigma tau pi) :=
  { node := n, key := contentHash, times := times } ::
    match n.retrieveKey thread contentHash caller times with
    | (.ok none, read) =>
      if contentHash ∈ read.table.tenantKeys then
        read.otherReads contentHash caller otherTimes
      else []
    | _ => []

def keyReads (n : Node sigma tau pi) (thread : Thread) (contentHash : String)
    (caller : Caller) (ownTimes times otherTimes : ReadTimes) :
    List (KeyRead sigma tau pi) :=
  if keySeparator ∈ contentHash.toList then
    [{ node := n, key := contentHash, times := times }]
  else if caller.tenant ≠ "" ∧ caller.tenant ≠ defaultTenant then
    { node := n, key := fragmentKey caller.tenant contentHash, times := ownTimes } ::
      match n.retrieveKey thread (fragmentKey caller.tenant contentHash) caller ownTimes with
      | (.ok none, read) =>
        read.defaultReads thread contentHash caller times otherTimes
      | _ => []
  else n.defaultReads thread contentHash caller times otherTimes

section KeyReads

variable {contentHash : String} {caller : Caller} {thread : Thread}
variable {ownTimes times otherTimes : ReadTimes}
variable (holds : Except NodeError (Option Fragment) × Node sigma tau pi -> Prop)

include holds

theorem retrieveOther_of_reads
    (hread : forall r, r ∈ n.otherReads contentHash caller otherTimes ->
      holds (.ok none, r.node) -> holds (r.node.retrieveKey thread r.key caller r.times))
    (hn : holds (.ok none, n)) :
    (forall r, r ∈ n.otherReads contentHash caller otherTimes -> holds (.ok none, r.node)) ∧
      holds (n.retrieveOther thread contentHash caller otherTimes) := by
  unfold otherReads at hread ⊢
  unfold retrieveOther
  split_ifs at hread ⊢
  · exact ⟨List.forall_mem_nil _, hn⟩
  · cases hcopy : n.table.anyTenantCopy contentHash with
    | none => exact ⟨List.forall_mem_nil _, hn⟩
    | some other =>
      rw [hcopy] at hread
      exact ⟨List.forall_mem_singleton.mpr hn, List.forall_mem_singleton.mp hread hn⟩

theorem retrieveDefault_of_reads
    (hread : forall r, r ∈ n.defaultReads thread contentHash caller times otherTimes ->
      holds (.ok none, r.node) -> holds (r.node.retrieveKey thread r.key caller r.times))
    (hn : holds (.ok none, n)) :
    (forall r, r ∈ n.defaultReads thread contentHash caller times otherTimes ->
        holds (.ok none, r.node)) ∧
      holds (n.retrieveDefault thread contentHash caller times otherTimes) := by
  unfold defaultReads at hread ⊢
  unfold retrieveDefault
  rw [List.forall_mem_cons] at hread ⊢
  have hfirst := hread.left hn
  rcases hkey : n.retrieveKey thread contentHash caller times with ⟨_ | _ | f, read⟩
  · simp only [hkey] at hfirst ⊢
    exact ⟨⟨hn, List.forall_mem_nil _⟩, hfirst⟩
  · simp only [hkey] at hread hfirst ⊢
    split_ifs at hread ⊢
    · have hrest := retrieveOther_of_reads holds hread.right hfirst
      exact ⟨⟨hn, hrest.left⟩, hrest.right⟩
    · exact ⟨⟨hn, List.forall_mem_nil _⟩, hfirst⟩
  · simp only [hkey] at hfirst ⊢
    exact ⟨⟨hn, List.forall_mem_nil _⟩, hfirst⟩

/-- A next key is read only after the last one gave nothing. -/
theorem retrieve_of_reads
    (hread : forall r, r ∈ n.keyReads thread contentHash caller ownTimes times otherTimes ->
      holds (.ok none, r.node) -> holds (r.node.retrieveKey thread r.key caller r.times))
    (hn : holds (.ok none, n)) :
    (forall r, r ∈ n.keyReads thread contentHash caller ownTimes times otherTimes ->
        holds (.ok none, r.node)) ∧
      holds (n.retrieve thread contentHash caller ownTimes times otherTimes) := by
  unfold keyReads at hread ⊢
  unfold retrieve
  split_ifs at hread ⊢
  · exact ⟨List.forall_mem_singleton.mpr hn, List.forall_mem_singleton.mp hread hn⟩
  · rw [List.forall_mem_cons] at hread ⊢
    have hfirst := hread.left hn
    rcases hkey : n.retrieveKey thread (fragmentKey caller.tenant contentHash) caller ownTimes
      with ⟨_ | _ | f, read⟩
    · simp only [hkey] at hfirst ⊢
      exact ⟨⟨hn, List.forall_mem_nil _⟩, hfirst⟩
    · simp only [hkey] at hread hfirst ⊢
      have hrest := retrieveDefault_of_reads holds hread.right hfirst
      exact ⟨⟨hn, hrest.left⟩, hrest.right⟩
    · simp only [hkey] at hfirst ⊢
      exact ⟨⟨hn, List.forall_mem_nil _⟩, hfirst⟩
  · exact retrieveDefault_of_reads holds hread hn

end KeyReads

theorem retrieve_preserves (holds : Node sigma tau pi -> Prop)
    (hread : forall m thread k caller times, holds m ->
      holds (m.retrieveKey thread k caller times).2)
    (hn : holds n) (thread : Thread) (k : String) (caller : Caller)
    (ownTimes times otherTimes : ReadTimes) :
    holds (n.retrieve thread k caller ownTimes times otherTimes).2 :=
  (retrieve_of_reads (fun read => holds read.2)
    (fun r _ => hread r.node thread r.key caller r.times) hn).right

theorem retrieve_evicts {sigma : Type} [ContentStore sigma] {n : Node sigma tau pi}
    (hn : n.Consistent) (htier : n.lowerTier = none) (thread : Thread)
    (k : String) (caller : Caller) (ownTimes times otherTimes : ReadTimes) :
    exists victims,
      Evicts n victims (n.retrieve thread k caller ownTimes times otherTimes).2 := by
  apply retrieve_preserves (fun m => exists victims, Evicts n victims m)
  · rintro m thread k caller times ⟨victims, hm⟩
    rcases retrieveKey_evicts hm.consistent (hm.frame.lowerTier htier) thread k caller
      times with ⟨others, hread⟩
    exact ⟨victims ++ others, hm.trans hread⟩
  · exact ⟨[], Evicts.refl hn⟩

end Reads

end Node

end Serving
end Membrane
