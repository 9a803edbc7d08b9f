import Membrane.Serving.EvictionOrder
import Membrane.Serving.LocatedReads

/-!
# Fragments without a lifetime

A lifetime of zero is meant to say that a fragment never expires.  The age tests of the
table do not know this value: a fragment with lifetime zero counts as expired as soon as
the clock has moved past its insertion.
-/

namespace Membrane
namespace Serving

open Foundation Data Store

/-!
# The evictions of a call

A call evicts for space when it is asked to, when it stores a fragment, and when it
brings one back from the lower tier.  Each eviction is listed with the node it meets.
-/

structure Eviction (sigma tau pi : Type) where
  node : Node sigma tau pi
  targetBytes : Int
  now : ℚ

section Evictions

variable {sigma tau pi : Type} [InventoryHash] [PayloadStore sigma] [LowerTier tau]
variable [EvictionPolicy pi]

def Eviction.victims (e : Eviction sigma tau pi) : List String :=
  match e.node.evict e.targetBytes e.now with
  | .error _ => []
  | .ok (evicted, _) => evicted

theorem Eviction.targetBytes_pos {e : Eviction sigma tau pi} {k : String}
    (h : k ∈ e.victims) : 0 < e.targetBytes := by
  by_contra hnone
  unfold Eviction.victims Node.evict at h
  rw [if_pos (not_lt.mp hnone)] at h
  cases h

namespace Node

def storeEvictions (n : Node sigma tau pi) (f : Fragment) (caller : Caller)
    (evictTime : ℚ) : List (Eviction sigma tau pi) :=
  if n.Crowds f caller then
    [{ node := n.charged f, targetBytes := f.payloadSize, now := evictTime }]
  else []

def promoteEvictions (n : Node sigma tau pi) (k : String) (times : ReadTimes) :
    List (Eviction sigma tau pi) :=
  match n.fetched k with
  | none => []
  | some item =>
    match (n.taken k).putPromoted item.1 item.2 with
    | .error _ => []
    | .ok filled => filled.storeEvictions item.1 Caller.internal times.evicted

def KeyRead.evictions (r : KeyRead sigma tau pi) : List (Eviction sigma tau pi) :=
  if r.node.lowerTier.isSome ∧ ¬ r.key ∈ r.node.fragments then
    r.node.promoteEvictions r.key r.times
  else []

def evictions (n : Node sigma tau pi) : Call -> List (Eviction sigma tau pi)
  | .mutation (.store f _ caller _ evictTime) => n.storeEvictions f caller evictTime
  | .mutation (.evict targetBytes now) =>
    [{ node := n, targetBytes := targetBytes, now := now }]
  | .mutation _ => []
  | .retrieve thread contentHash caller ownTimes times otherTimes =>
    (n.keyReads thread contentHash caller ownTimes times otherTimes).flatMap
      KeyRead.evictions

def LiveVictim (n : Node sigma tau pi) (c : Call) (k : String) : Prop :=
  exists e, e ∈ n.evictions c ∧ k ∈ e.victims ∧ e.node.table.isExpired k e.now = false

end Node

end Evictions

/-!
# What is asked of fragments without a lifetime
-/

def Call.Deletes (k : String) : Call -> Prop
  | .mutation (.removeFragment contentHash) => contentHash = k
  | _ => False

def NamedBy (f : Fragment) (contentHash : String) : Prop :=
  contentHash = f.key ∨ Node.PlainHash f ∧ contentHash = f.payloadHash

namespace Node

variable {sigma tau pi : Type}

section Ages

variable [InventoryHash] [PayloadStore sigma] [LowerTier tau] [EvictionPolicy pi]

def Inspects (n : Node sigma tau pi) (k : String) (now : ℚ) : Call -> Prop
  | .mutation (.sweepExpired swept) => now = swept
  | .mutation _ => False
  | .retrieve thread contentHash caller ownTimes times otherTimes =>
    exists r, r ∈ n.keyReads thread contentHash caller ownTimes times otherTimes ∧
      r.key = k ∧ now = r.times.read

/-- The call tests the age of the fragment under the key against this reading of the clock.
An eviction that takes place and a sweep test every fragment, a read of a key only the one
under it. -/
def TestsAge (n : Node sigma tau pi) (c : Call) (k : String) (now : ℚ) : Prop :=
  n.Inspects k now c ∨ exists e, e ∈ n.evictions c ∧ 0 < e.targetBytes ∧ e.now = now

/-- The age of a resident fragment without a lifetime is tested only at the time of its
insertion, or before. -/
def ClockHeld (n : Node sigma tau pi) (c : Call) : Prop :=
  forall k f inserted, n.fragments.get? k = some f -> f.ttl = 0 ->
    n.table.insertionTimes.get? k = some inserted ->
    forall now, n.TestsAge c k now -> now ≤ inserted

end Ages

structure HeldSince (n : Node sigma tau pi) (k : String) (f : Fragment) (inserted : ℚ) :
    Prop where
  resident : n.fragments.get? k = some f
  time : n.table.insertionTimes.get? k = some inserted

variable {n m : Node sigma tau pi} {k : String} {f : Fragment} {inserted now : ℚ}

theorem HeldSince.of_undisturbed (h : n.HeldSince k f inserted) (hsame : Undisturbed n m k) :
    m.HeldSince k f inserted :=
  ⟨hsame.resident.trans h.resident, hsame.time.trans h.time⟩

theorem HeldSince.of_table (h : n.HeldSince k f inserted) (htable : m.table = n.table) :
    m.HeldSince k f inserted := by
  constructor
  · show m.table.fragments.get? k = some f
    rw [htable]
    exact h.resident
  · rw [htable]
    exact h.time

variable {caller : Caller} {times otherTimes : ReadTimes} {contentHash : String}
  {r : KeyRead sigma tau pi}

section

variable (h : n.HeldSince k f inserted) (hnow : now ≤ inserted + f.ttl)

include h hnow

theorem HeldSince.live (hcaller : caller.tenant = f.tenantId) : n.Live k f caller now where
  resident := h.resident
  readable := Or.inr (canRead_of_tenant (Or.inl hcaller.symm))
  unexpired := ⟨inserted, h.time, hnow⟩

theorem HeldSince.isExpired :
    n.table.isExpired k now = false :=
  (isExpired_eq_false_iff h.resident h.time now).mpr hnow

end

section Removing

variable [InventoryHash]

theorem HeldSince.inserted_other (h : n.HeldSince k f inserted) {g : Fragment}
    (hnew : ¬ g.key ∈ n.fragments) (isPrimary : Bool) (now : ℚ) :
    (n.inserted g isPrimary now).HeldSince k f inserted := by
  have hk : k ≠ g.key := by
    rintro rfl
    exact hnew (Dict.mem_of_get? h.resident)
  constructor
  · rw [get?_inserted, if_neg hk]
    exact h.resident
  · show (n.table.insertionTimes.set g.key now).get? k = some inserted
    rw [Dict.get?_set_of_ne _ _ hk]
    exact h.time

section Sweeps

variable [PayloadStore sigma]

theorem HeldSince.of_evicts {victims : List (String × Fragment)}
    (h : n.HeldSince k f inserted) (hevicts : Evicts n victims m)
    (htimes : forall j, j ∈ m.fragments ->
      m.table.insertionTimes.get? j = n.table.insertionTimes.get? j)
    (hk : ¬ k ∈ victims.map Prod.fst) : m.HeldSince k f inserted := by
  have hresident : m.fragments.get? k = some f := by
    rw [hevicts.remaining, if_neg hk]
    exact h.resident
  exact ⟨hresident, (htimes k (Dict.mem_of_get? hresident)).trans h.time⟩

variable [LowerTier tau]

theorem insertionTimes_keptByRemovals (t : FragmentTable) :
    KeptByRemovals (fun n : Node sigma tau pi => forall k, k ∈ n.table.fragments ->
      n.table.insertionTimes.get? k = t.insertionTimes.get? k) := by
  apply keptByRemovals_of_table (fun _ t' => forall k, k ∈ t'.fragments ->
    t'.insertionTimes.get? k = t.insertionTimes.get? k)
  · intro _ t₁ k f t₂ hpop h j hj
    rw [FragmentTable.pop_fragments hpop, Dict.mem_erase] at hj
    rw [← h j hj.right, ((FragmentTable.pop_eq_some_iff _ _ _ _).mp hpop).right]
    exact Dict.get?_erase_of_ne _ hj.left
  · exact fun _ _ h => h

theorem HeldSince.sweepExpired (h : n.HeldSince k f inserted) (haddressed : n.Addressed)
    (hn : n.Consistent) (hnow : now ≤ inserted + f.ttl) :
    (after (n.sweepExpired now)).HeldSince k f inserted := by
  rcases evictExpired_stage haddressed hn (n.table.memoryUsage + 1) now with
    ⟨first, hfirst, hstage⟩
  have hk : ¬ k ∈ first.victims.map Prod.fst := by
    intro hmem
    have hexpired := (List.mem_filter.mp (hstage.among k hmem)).right
    rw [h.isExpired hnow] at hexpired
    cases hexpired
  have htimes := (insertionTimes_keptByRemovals n.table).evictKeys hfirst (fun _ _ => rfl)
  have hheld := h.of_evicts hstage.evicts htimes hk
  unfold Node.sweepExpired
  simp only [hfirst]
  exact hheld.of_table rfl

def SweepsExactly (n : Node sigma tau pi) (now : ℚ) : Prop :=
  exists swept, n.sweepExpired now = .ok (n.table.expired now, swept) ∧
    (forall k, swept.fragments.get? k =
      if k ∈ n.table.expired now then none else n.fragments.get? k) ∧
    swept.table.expired now = []

theorem Consistent.sweepsExactly (haddressed : n.Addressed) (hn : n.Consistent) (now : ℚ) :
    n.SweepsExactly now := by
  rcases evictExpired_stage haddressed hn (n.table.memoryUsage + 1) now with
    ⟨first, hfirst, hstage⟩
  -- The bytes of the victims were in use, so that the target is out of reach.
  have hall : forall k, k ∈ n.table.expired now -> k ∈ first.victims.map Prod.fst := by
    have hbytes := totalBytes_le_memoryUsage hstage.evicts
    have hfreed := hstage.freed_eq
    exact hstage.enough.resolve_left (by omega)
  have hkeys : first.victims.map Prod.fst = n.table.expired now :=
    eq_of_leading (n.fragments.keys_nodup.filter _) (evictKeys_leading hfirst).left hall
  have htimes := (insertionTimes_keptByRemovals n.table).evictKeys hfirst (fun _ _ => rfl)
  have hremaining := hstage.evicts.remaining
  rw [hkeys] at hremaining
  refine ⟨first.node.fireEvictionCallbacks (first.victims.map Prod.snd) .expired, ?_,
    hremaining, ?_⟩
  · unfold Node.sweepExpired
    simp only [hfirst, finishEviction, hkeys]
  · apply List.filter_eq_nil_iff.mpr
    intro k hk hexpired
    have hmem : k ∈ first.node.fragments := hk
    rcases (hstage.evicts.mem_remaining_iff k).mp hmem with ⟨hresident, hnot⟩
    rw [hkeys] at hnot
    apply hnot (List.mem_filter.mpr ⟨hresident, ?_⟩)
    have hget : first.node.table.fragments.get? k = n.table.fragments.get? k :=
      (hremaining k).trans (if_neg hnot)
    unfold FragmentTable.isExpired Dict.getD at hexpired ⊢
    rw [← htimes k hmem, ← hget]
    exact hexpired

variable [EvictionPolicy pi]

end Sweeps

variable [ContentStore sigma]

theorem HeldSince.readKey (h : n.HeldSince k f inserted) {j : String} {now : ℚ}
    (hnow : j = k -> now ≤ inserted + f.ttl) (thread : Thread) (caller : Caller) :
    (n.readKey thread j caller now).2.HeldSince k f inserted := by
  by_cases hj : k = j
  · subst hj
    have hreads := ReadsOnly.withLookup n thread k (some now)
    have hseen : (n.withLookup thread k (some now)).HeldSince k f inserted := by
      constructor
      · rw [hreads.fragments]
        exact h.resident
      · rw [hreads]
        exact h.time
    rcases n.readKey_cases thread k caller now with hsame | ⟨hexpired, _⟩
    · rw [hsame]
      exact hseen
    · rw [hseen.isExpired (hnow rfl)] at hexpired
      cases hexpired
  · exact h.of_undisturbed (readKey_undisturbed hj thread caller now)

variable [LowerTier tau] [EvictionPolicy pi]

section

variable (h : n.HeldSince k f inserted)

include h

theorem HeldSince.evict (hn : n.Consistent) (targetBytes : Int) (now : ℚ) :
    (after (n.evict targetBytes now)).HeldSince k f inserted ∨
      k ∈ Eviction.victims { node := n, targetBytes := targetBytes, now := now } := by
  rcases evict_evicts (addressed n) hn targetBytes now with
    ⟨victims, room, hevict, hevicts, _⟩
  have htimes := (insertionTimes_keptByRemovals n.table).evict (fun _ _ => rfl) targetBytes now
  unfold Eviction.victims
  rw [hevict] at htimes ⊢
  by_cases hk : k ∈ victims.map Prod.fst
  · exact Or.inr hk
  · exact Or.inl (h.of_evicts hevicts htimes hk)

theorem HeldSince.store (hn : n.Invariant) (g : Fragment)
    (isPrimary : Bool) (caller : Caller) (now evictTime : ℚ) :
    (n.store g isPrimary caller now evictTime).2.HeldSince k f inserted ∨
      exists e, e ∈ n.storeEvictions g caller evictTime ∧ k ∈ e.victims ∧
        e.node.table = n.table ∧ e.now = evictTime := by
  have hcharged : (n.charged g).HeldSince k f inserted := h.of_table (n.charged_table g)
  by_cases hgates : n.PassesGates g caller
  · rw [store_of_passesGates hgates]
    split_ifs with hlarge
    · exact Or.inl hcharged
    unfold storeLocked
    split_ifs with hmem hfull
    · exact Or.inl ⟨hcharged.resident, hcharged.time⟩
    · have hcrowds : n.Crowds g caller := by
        refine ⟨hgates, not_lt.mp hlarge, ?_, ?_⟩
        · rw [charged_fragments] at hmem
          exact hmem
        · rw [charged_table, charged_maxMemoryBytes] at hfull
          exact hfull
      have hconsistent := (charged_invariant hn g).toConsistent
      rcases evict_evicts (Node.addressed _) hconsistent g.payloadSize evictTime with
        ⟨victims, room, hevict, hevicts, _⟩
      rcases hcharged.evict hconsistent g.payloadSize evictTime with hkept | hvictim
      · rw [hevict] at hkept
        simp only [hevict, insertFragment_eq (payloadFault_of_total g)]
        split_ifs
        · exact Or.inl hkept
        · exact Or.inl (HeldSince.inserted_other hkept
            (fun hnew => hmem (hevicts.mem_of_remaining hnew)) isPrimary now)
      · right
        unfold storeEvictions
        rw [if_pos hcrowds]
        exact ⟨_, List.mem_singleton.mpr rfl, hvictim, n.charged_table g, rfl⟩
    · rw [insertFragment_eq (payloadFault_of_total g)]
      exact Or.inl (hcharged.inserted_other hmem isPrimary now)
  · rw [(store_of_not_passesGates hgates isPrimary now evictTime).right]
    exact Or.inl h

theorem HeldSince.promote (hn : n.Invariant) (j : String) (times : ReadTimes) :
    (n.promote j times).2.HeldSince k f inserted ∨
      exists e, e ∈ n.promoteEvictions j times ∧ k ∈ e.victims ∧
        e.node.table = n.table ∧ e.now = times.evicted := by
  unfold promoteEvictions
  cases hitem : n.fetched j with
  | none =>
    rw [promote_of_none hitem]
    exact Or.inl ⟨h.resident, h.time⟩
  | some item =>
    rw [promote_of_some hitem]
    have htaken : (n.taken j).Invariant := ⟨⟨hn.bookkeeping, hn.tracked⟩, hn.capacity⟩
    simp only
    cases hput : (n.taken j).putPromoted item.1 item.2 with
    | error e => exact Or.inl ⟨h.resident, h.time⟩
    | ok filled =>
      have htable : filled.table = n.table := (putPromoted_frame hput).right.right
      rcases (h.of_table htable).store (invariant_keptBySteps.putPromoted hput htaken) item.1
        false Caller.internal times.promoted times.evicted with hkept | ⟨e, he, hvictim, hnode,
          hnow⟩
      · exact Or.inl hkept
      · exact Or.inr ⟨e, he, hvictim, hnode.trans htable, hnow⟩

theorem HeldSince.retrieveKey (hn : n.Invariant) {j : String}
    (hread : j = k -> times.read ≤ inserted + f.ttl) (thread : Thread) (caller : Caller) :
    (n.retrieveKey thread j caller times).2.HeldSince k f inserted ∨
      exists e, e ∈ KeyRead.evictions { node := n, key := j, times := times } ∧
        k ∈ e.victims ∧ e.node.table = n.table ∧ e.now = times.evicted := by
  unfold Node.retrieveKey KeyRead.evictions
  split_ifs with hconsulted
  · rcases h.promote hn j times with hkept | hgone
    · left
      split
      · rename_i heq
        rw [heq] at hkept
        exact hkept
      · rename_i heq
        rw [heq] at hkept
        exact hkept.readKey hread thread caller
    · exact Or.inr hgone
  · exact Or.inl (h.readKey hread thread caller)

end

end Removing

/-!
# One call
-/

section Calls

variable [InventoryHash] [ContentStore sigma] [LowerTier tau] [EvictionPolicy pi]

variable {thread : Thread} {ownTimes : ReadTimes}

/-- A read begins with the caller's own copy or with the hash as it stands. -/
theorem keyReads_head (h : (n.keyReads thread contentHash caller ownTimes times
    otherTimes).head? = some r) : r.times = ownTimes ∨ r.times = times := by
  unfold keyReads defaultReads at h
  split_ifs at h
  · cases h
    exact Or.inr rfl
  · cases h
    exact Or.inl rfl
  · cases h
    exact Or.inr rfl

/-- A read leaves the fragment, or takes it in an eviction that makes room for what the
lower tier gives back. -/
theorem HeldSince.retrieve (h : n.HeldSince k f inserted) (hn : n.Invariant)
    (hages : forall now, n.TestsAge (.retrieve thread contentHash caller ownTimes times
      otherTimes) k now -> now ≤ inserted + f.ttl) :
    (n.retrieve thread contentHash caller ownTimes times otherTimes).2.HeldSince k f
        inserted ∨
      n.LiveVictim (.retrieve thread contentHash caller ownTimes times otherTimes) k := by
  have hread : forall r,
      r ∈ n.keyReads thread contentHash caller ownTimes times otherTimes ->
      (r.node.Invariant ∧ (r.node.HeldSince k f inserted ∨ n.LiveVictim
        (.retrieve thread contentHash caller ownTimes times otherTimes) k)) ->
      (r.node.retrieveKey thread r.key caller r.times).2.Invariant ∧
        ((r.node.retrieveKey thread r.key caller r.times).2.HeldSince k f inserted ∨
          n.LiveVictim (.retrieve thread contentHash caller ownTimes times otherTimes) k) := by
    intro r hr hm
    refine ⟨invariant_keptBySteps.retrieveKey hm.left thread r.key caller
      (fun f _ => payloadFault_of_total f) r.times, ?_⟩
    rcases hm.right with hkept | hvictim
    · have hread := fun hk : r.key = k => hages r.times.read (Or.inl ⟨r, hr, hk, rfl⟩)
      rcases hkept.retrieveKey hm.left hread thread caller with
        hstays | ⟨e, he, hvictim, htable, _⟩
      · exact Or.inl hstays
      · have hevicts : e ∈ n.evictions (.retrieve thread contentHash caller ownTimes times
            otherTimes) := List.mem_flatMap.mpr ⟨r, hr, he⟩
        refine Or.inr ⟨e, hevicts, hvictim, ?_⟩
        rw [htable]
        exact hkept.isExpired
          (hages e.now (Or.inr ⟨e, hevicts, Eviction.targetBytes_pos hvictim, rfl⟩))
    · exact Or.inr hvictim
  have hrun := retrieve_of_reads (fun read => read.2.Invariant ∧
    (read.2.HeldSince k f inserted ∨
      n.LiveVictim (.retrieve thread contentHash caller ownTimes times otherTimes) k))
    hread ⟨hn, Or.inl h⟩
  exact hrun.right.right

/-- A call leaves the fragment, deletes it, or takes it in an eviction that does not
regard it as expired. -/
theorem HeldSince.call (h : n.HeldSince k f inserted) (hn : n.Invariant) {c : Call}
    (hages : forall now, n.TestsAge c k now -> now ≤ inserted + f.ttl) :
    (n.call c).HeldSince k f inserted ∨ c.Deletes k ∨ n.LiveVictim c k := by
  cases c with
  | mutation mutation =>
    cases mutation with
    | store g isPrimary caller now evictTime =>
      rcases h.store hn g isPrimary caller now evictTime with hkept |
        ⟨e, he, hvictim, htable, _⟩
      · exact Or.inl hkept
      · refine Or.inr (Or.inr ⟨e, he, hvictim, ?_⟩)
        rw [htable]
        exact h.isExpired
          (hages e.now (Or.inr ⟨e, he, Eviction.targetBytes_pos hvictim, rfl⟩))
    | removeFragment j =>
      by_cases hj : j = k
      · exact Or.inr (Or.inl hj)
      · left
        show (after (n.removeFragment j)).HeldSince k f inserted
        cases hremove : n.removeFragment j with
        | error raised =>
          exact h.of_table (congrArg table (raised_node_of_total hremove))
        | ok removed =>
          exact h.of_undisturbed
            (removeFragment_undisturbed (fun hkj => hj hkj.symm) hremove)
    | evict targetBytes now =>
      rcases h.evict hn.toConsistent targetBytes now with hkept | hvictim
      · exact Or.inl hkept
      · have hmem : (⟨n, targetBytes, now⟩ : Eviction sigma tau pi) ∈
            n.evictions (.mutation (.evict targetBytes now)) := List.mem_singleton.mpr rfl
        exact Or.inr (Or.inr ⟨_, hmem, hvictim, h.isExpired
          (hages now (Or.inr ⟨_, hmem, Eviction.targetBytes_pos hvictim, rfl⟩))⟩)
    | sweepExpired now =>
      exact Or.inl (h.sweepExpired (addressed n) hn.toConsistent (hages now (Or.inl rfl)))
  | retrieve thread contentHash caller ownTimes times otherTimes =>
    rcases h.retrieve hn hages with hkept | hvictim
    · exact Or.inl hkept
    · exact Or.inr (Or.inr hvictim)

/-!
# Runs
-/

theorem HeldSince.retrieve_answers (h : n.HeldSince f.key f inserted)
    (hright : EntriesRight n.table f.key) (hcaller : caller.tenant = f.tenantId)
    (hname : NamedBy f contentHash)
    (hfirst : forall r, (n.keyReads thread contentHash caller ownTimes times
      otherTimes).head? = some r -> r.key = f.key -> r.times.read ≤ inserted + f.ttl) :
    (n.retrieve thread contentHash caller ownTimes times otherTimes).1 = .ok (some f) := by
  unfold keyReads defaultReads at hfirst
  unfold Node.retrieve
  split_ifs at hfirst ⊢ with hseparator hnamed
  · rcases hname with hkey | ⟨hplain, hhash⟩
    · have hread := hfirst _ rfl hkey
      rw [hkey, retrieveKey_of_live hright (h.live hread hcaller) thread]
    · rw [hhash] at hseparator
      exact absurd hseparator hplain
  · have hkey : fragmentKey caller.tenant contentHash = f.key := by
      rcases hname with hkey | ⟨_, hhash⟩
      · rw [hcaller] at hnamed
        rw [hkey] at hseparator
        unfold Fragment.key at hseparator
        rw [fragmentKey_toList hnamed.right] at hseparator
        exact absurd (List.mem_append_right _ List.mem_cons_self) hseparator
      · rw [hcaller, hhash]
        rfl
    have hread := hfirst _ rfl hkey
    rw [hkey, retrieveKey_of_live hright (h.live hread hcaller) thread]
  · have hdefault : f.tenantId = defaultTenant := by
      have hnonempty : f.tenantId ≠ "" :=
        ((validateTenantId_eq_ok_iff _).mp f.tenantId_valid).left
      rw [hcaller] at hnamed
      by_contra hother
      exact hnamed ⟨hnonempty, hother⟩
    have hkey : contentHash = f.key := by
      rcases hname with hkey | ⟨_, hhash⟩
      · exact hkey
      · unfold Fragment.key
        rw [hdefault, fragmentKey_defaultTenant, hhash]
    have hread := hfirst _ rfl hkey
    rw [hkey, retrieveDefault_of_live hright (h.live hread hcaller) thread]

/-- No fragment without a lifetime is removed or hidden because of its age: it stays
unless the call deletes it or evicts it as a live one, and its tenant reads it. -/
def Ageless (n : Node sigma tau pi) (c : Call) : Prop :=
  forall k f, n.fragments.get? k = some f -> f.ttl = 0 ->
    ((n.call c).fragments.get? k = some f ∨ c.Deletes k ∨ n.LiveVictim c k) ∧
      forall thread contentHash caller ownTimes times otherTimes,
        c = .retrieve thread contentHash caller ownTimes times otherTimes ->
        caller.tenant = f.tenantId -> NamedBy f contentHash ->
        (n.retrieve thread contentHash caller ownTimes times otherTimes).1 =
          .ok (some f)

theorem call_ageless (hn : n.Invariant) (hright : CachesRight n.table) {c : Call}
    (hclock : n.ClockHeld c) : n.Ageless c := by
  intro k f hf httl
  have hkey : f.key = k := hn.bookkeeping.keyed k f hf
  rcases hn.timed hf with ⟨inserted, htime⟩
  have hheld : n.HeldSince k f inserted := ⟨hf, htime⟩
  have hages : forall now, n.TestsAge c k now -> now ≤ inserted + f.ttl := by
    intro now hnow
    rw [httl, add_zero]
    exact hclock k f inserted hf httl htime now hnow
  constructor
  · rcases hheld.call hn hages with hkept | hgone
    · exact Or.inl hkept.resident
    · exact Or.inr hgone
  · intro thread contentHash caller ownTimes times otherTimes hc hcaller hname
    rw [hc] at hages
    rw [← hkey] at hheld hages
    exact hheld.retrieve_answers (hright f.key) hcaller hname (fun r hr hread =>
      hages _ (Or.inl ⟨r, List.mem_of_mem_head? hr, hread, rfl⟩))

/-- In a run whose age tests never look past the insertion of a resident fragment without
a lifetime, no such fragment is removed or hidden because of its age. -/
theorem run_ageless {config : Config sigma tau pi} {calls : List Call}
    (hclock : Along call ClockHeld (create config) calls) :
    Along call Ageless (create config) calls := by
  apply along_of_along (fun n : Node sigma tau pi => n.Invariant ∧ CachesRight n.table)
    (fun m c hm _ => ⟨call_invariant hm.left c, cachesRight_keptByCalls.call hm.left
      hm.right c⟩)
    (fun m c hm hc => call_ageless hm.left hm.right hc) _ hclock
  exact ⟨create_invariant config, (create_sound config).right⟩

/-!
# The lifetime of what is stored
-/

/-- The call tests ages within the lifetime, does not delete the fragment, and makes room
without it. -/
def SparesLiving (f : Fragment) (inserted : ℚ) (n : Node sigma tau pi) (c : Call) : Prop :=
  (forall now, n.TestsAge c f.key now -> now ≤ inserted + f.ttl) ∧
    ¬ c.Deletes f.key ∧ ¬ n.LiveVictim c f.key

/-- Until its lifetime is over, the tenant of a resident fragment reads it by its names, if no
call deletes it or evicts it for space. -/
theorem run_answers_within_life {config : Config sigma tau pi} {earlier calls : List Call}
    (hheld : (run call (create config) earlier).HeldSince f.key f inserted)
    (hspares : Along call (SparesLiving f inserted) (run call (create config) earlier) calls)
    (hcaller : caller.tenant = f.tenantId) (hname : NamedBy f contentHash)
    (hown : ownTimes.read ≤ inserted + f.ttl) (htimes : times.read ≤ inserted + f.ttl)
    (thread : Thread) (otherTimes : ReadTimes) :
    ((run call (run call (create config) earlier) calls).retrieve thread contentHash caller
      ownTimes times otherTimes).1 = .ok (some f) := by
  have hstart := (cachesRight_keptByCalls.keptBySteps.run
    ⟨create_invariant config, (create_sound config).right⟩ earlier
    (along_of_forall addresses _ _)) earlier (List.prefix_refl earlier)
  have hrun : ((run call (run call (create config) earlier) calls).Invariant ∧
      CachesRight (run call (run call (create config) earlier) calls).table) ∧
      (run call (run call (create config) earlier) calls).HeldSince f.key f inserted := by
    refine run_of_along (fun n : Node sigma tau pi => (n.Invariant ∧ CachesRight n.table) ∧
      n.HeldSince f.key f inserted) (fun n c hn hc => ?_) ⟨hstart, hheld⟩ hspares
    rcases hn.right.call hn.left.left hc.left with hkept | hgone
    · exact ⟨cachesRight_keptByCalls.keptBySteps.call hn.left c (addresses n c), hkept⟩
    · exact absurd hgone (not_or.mpr hc.right)
  apply hrun.right.retrieve_answers (hrun.left.right f.key) hcaller hname
  intro r hr _
  rcases keyReads_head hr with heq | heq
  · exact heq ▸ hown
  · exact heq ▸ htimes

end Calls

end Node

section Sample

attribute [local instance] InventoryHash.constant

def agelessCopy : Fragment where
  toFragmentFields := { firstCopy.toFragmentFields with ttl := 0 }
  accepted := (FragmentFields.postInit_eq_ok_iff _).mpr
    ⟨Int.natCast_nonneg 60, le_refl _, ⟨le_refl _, zero_le_one⟩, le_refl _, rfl, le_refl _,
      Or.inl rfl⟩

def agelessStore : Call := .mutation (.store agelessCopy true Caller.internal 1 1)

def agelessRead : Call :=
  .retrieve 0 "h" { tenant := "a", scopes := ∅ } (readAt 1) (readAt 1) (readAt 1)

theorem clockHeld_of_entries {n : Node InProcessBytes Empty WeightedLRU} {c : Call}
    (hageless : forall e, e ∈ n.fragments.entries -> e.2.ttl = 0 -> e.1 = agelessCopy.key)
    (htime : n.table.insertionTimes.get? agelessCopy.key = some 1)
    (hinspects : forall now, n.Inspects agelessCopy.key now c -> now ≤ 1)
    (hevictions : (n.evictions c).length = 0) : n.ClockHeld c := by
  intro k f inserted hf httl hinserted now htests
  have hk : k = agelessCopy.key :=
    hageless (k, f) ((Dict.get?_eq_some_iff _ _ _).mp hf) httl
  rw [hk, htime] at hinserted
  cases hinserted
  rcases htests with hinspected | ⟨e, he, _⟩
  · exact hinspects now (hk ▸ hinspected)
  · rw [List.length_eq_zero_iff.mp hevictions] at he
    cases he

/-- The clock moves on while other fragments are stored and read. -/
theorem agelessCalls_ageless :
    Along Node.call Node.Ageless (Node.create (Config.default "node" 200))
      [agelessStore, agelessRead, .mutation (.store acmeCopy true Caller.internal 2 2),
        .retrieve 0 "h" (Node.member "acme") (readAt 3) (readAt 3) (readAt 3)] := by
  apply Node.run_ageless
  refine ⟨?_, clockHeld_of_entries (by decide +kernel) (by decide +kernel) ?_
    (by decide +kernel), clockHeld_of_entries (by decide +kernel) (by decide +kernel) ?_
    (by decide +kernel), clockHeld_of_entries (by decide +kernel) (by decide +kernel) ?_
    (by decide +kernel), trivial⟩
  · intro k f inserted hf
    cases hf
  · rintro now ⟨r, hr, hkey, rfl⟩
    revert r
    decide +kernel
  · rintro now ⟨⟩
  · rintro now ⟨r, hr, hkey, rfl⟩
    revert r
    decide +kernel

/-- A sweep one time unit later removes the fragment, and a read answers its tenant with
nothing. -/
theorem agelessSweep_not_ageless :
    ¬ Along Node.call Node.Ageless (Node.create (Config.default "node" 200))
        [agelessStore, .mutation (.sweepExpired 2)] ∧
      (((Node.create (Config.default "node" 200)).call agelessStore).retrieve 0 "h"
        { tenant := "a", scopes := ∅ } (readAt 2) (readAt 2) (readAt 2)).1 =
        .ok none := by
  constructor
  · rintro ⟨_, hsweep, _⟩
    rcases (hsweep agelessCopy.key agelessCopy (by decide +kernel) rfl).left with
      hkept | hdeleted | ⟨e, he, _⟩
    · exact absurd hkept (by decide +kernel)
    · cases hdeleted
    · cases he
  · decide +kernel

def storedOnce : Node InProcessBytes Empty WeightedLRU :=
  run Node.call (Node.create (Config.default "node" 200)) [Node.storing firstCopy]

theorem firstCopy_within_life :
    ((run Node.call storedOnce [.mutation (.removeFragment "j")]).retrieve 0 "h"
      (Node.member "a") (readAt 2) (readAt 2) (readAt 2)).1 = .ok (some firstCopy) := by
  have hheld : storedOnce.HeldSince firstCopy.key firstCopy 1 :=
    ⟨by decide +kernel, by decide +kernel⟩
  have hspares : Along Node.call (Node.SparesLiving firstCopy 1) storedOnce
      [.mutation (.removeFragment "j")] := by
    have hother : "j" ≠ firstCopy.key := by decide
    refine ⟨⟨?_, hother, ?_⟩, trivial⟩
    · rintro now (hinspected | ⟨e, he, _⟩)
      · cases hinspected
      · cases he
    · rintro ⟨e, he, _⟩
      cases he
  exact Node.run_answers_within_life hheld hspares rfl (Or.inr ⟨by decide, rfl⟩)
    (by decide +kernel) (by decide +kernel) 0 (readAt 2)

end Sample

end Serving
end Membrane
