import Membrane.Serving.KeptByCalls
import Membrane.Serving.SteadyReads

/-!
# Locating and reading

A node can name the key that a read of a hash would use, without the effects of a read.
Where nothing is expired and no lower tier is asked, a read answers with the fragment
under this key.
-/

namespace Membrane
namespace Serving

open Foundation Data Store

/-!
# Caches over a run
-/

def CachesRight (t : FragmentTable) : Prop :=
  forall k, EntriesRight t k

variable {f : Fragment} {c : Call}

theorem CachesRight.pop [InventoryHash] {t t' : FragmentTable} {k : String} (h : CachesRight t)
    (hpop : t.pop k = some (f, t')) : CachesRight t' := by
  intro c thread entry hentry
  rcases cached_of_pop hpop thread c hentry with ⟨hc, hold⟩
  have hat := h c thread entry hold
  rcases (FragmentTable.pop_eq_some_iff t k f t').mp hpop with ⟨_, ht'⟩
  have htimes : t'.insertionTimes = t.insertionTimes.erase k := by
    rw [ht']
    rfl
  unfold EntryRule.At at hat ⊢
  rw [FragmentTable.pop_fragments hpop, htimes, Dict.get?_erase_of_ne _ hc,
    Dict.get?_erase_of_ne _ hc]
  exact hat

theorem CachesRight.add [InventoryHash] {t : FragmentTable} (h : CachesRight t)
    (hnew : ¬ f.key ∈ t.fragments) (now : ℚ) : CachesRight (t.add f now) := by
  intro c thread entry hentry
  have hat := h c thread entry hentry
  have hc : c ≠ f.key := by
    rintro rfl
    exact hnew (Dict.mem_of_get? hat.left)
  unfold EntryRule.At at hat ⊢
  show expiresRight ((t.fragments.set f.key f).get? c)
    ((t.insertionTimes.set f.key now).get? c) entry
  rw [Dict.get?_set_of_ne _ _ hc, Dict.get?_set_of_ne _ _ hc]
  exact hat

theorem CachesRight.cachedResident {t : FragmentTable} (h : CachesRight t) :
    CachedResident t := by
  intro thread c entry hentry
  rcases expiresRight_at_iff.mp (h c thread entry hentry) with ⟨g, _, hg, _, heq⟩
  rw [heq]
  exact hg

theorem cachesRight_keptByCalls [InventoryHash] : KeptByCalls CachesRight where
  pop _ _ _ _ _ hpop h := h.pop hpop
  recency t h := by
    intro k thread entry hentry
    rw [cached_recency] at hentry
    exact h k thread entry hentry
  lookup _ thread k now hbook h := Node.EntriesRight.lookup hbook h thread k now
  touch _ _ _ _ h := h
  add _ _ now _ hnew h := h.add hnew now

/-!
# Nodes without a lower tier
-/

def Call.brings : Call -> Option Fragment
  | .mutation (.store f _ _ _ _) => some f
  | _ => none

theorem Call.eq_store_of_brings (h : c.brings = some f) :
    exists isPrimary caller now evictTime,
      c = .mutation (.store f isPrimary caller now evictTime) := by
  cases c with
  | mutation m =>
    cases m with
    | store g isPrimary caller now evictTime =>
      cases h
      exact ⟨isPrimary, caller, now, evictTime, rfl⟩
    | removeFragment k | evict targetBytes now | sweepExpired now => cases h
  | retrieve thread k caller ownTimes times otherTimes => cases h

namespace Node

variable {sigma tau pi : Type} [InventoryHash] {n : Node sigma tau pi}

theorem locate_eq_key (hn : n.Consistent) {h : String} {caller : Caller}
    (hf : n.located h caller = some f) : n.locate h caller = some f.key := by
  rcases Option.bind_eq_some_iff.mp hf with ⟨k, hk, hget⟩
  rw [hk, hn.bookkeeping.keyed k f hget]

variable [LowerTier tau]

theorem settled_of_no_lowerTier (hn : n.Sound) (htier : n.lowerTier = none) :
    n.Settled where
  toSound := hn
  lacks k tier hsome := by
    rw [htier] at hsome
    cases hsome

variable [ContentStore sigma] [EvictionPolicy pi]

theorem call_evicts (hn : n.Consistent) (htier : n.lowerTier = none) (hc : c.brings = none) :
    exists victims, Evicts n victims (n.call c) := by
  cases c with
  | mutation m =>
    rcases mutate_cases hn m with ⟨f, isPrimary, caller, now, evictTime, rfl⟩ | hevicts
    · cases hc
    · exact hevicts
  | retrieve thread k caller ownTimes times otherTimes =>
    exact retrieve_evicts hn htier thread k caller ownTimes times otherTimes

theorem call_lowerTier (hn : n.Invariant) (htier : n.lowerTier = none) (c : Call) :
    (n.call c).lowerTier = none := by
  cases hc : c.brings with
  | none =>
    rcases call_evicts hn.toConsistent htier hc with ⟨victims, hevicts⟩
    exact hevicts.frame.lowerTier htier
  | some g =>
    rcases Call.eq_store_of_brings hc with ⟨isPrimary, caller, now, evictTime, rfl⟩
    exact store_lowerTier hn htier

theorem get?_of_call (hn : n.Invariant) (htier : n.lowerTier = none) {k : String} {g : Fragment}
    (hg : (n.call c).fragments.get? k = some g) :
    n.fragments.get? k = some g ∨ c.brings = some g := by
  cases hc : c.brings with
  | none =>
    rcases call_evicts hn.toConsistent htier hc with ⟨victims, hevicts⟩
    exact Or.inl (hevicts.get?_of_remaining hg)
  | some f =>
    rcases Call.eq_store_of_brings hc with ⟨isPrimary, caller, now, evictTime, rfl⟩
    rcases get?_of_store hn hg with hold | ⟨_, hnew⟩
    · exact Or.inl hold
    · exact Or.inr (congrArg some hnew.symm)

def BringsPlain (_ : Node sigma tau pi) (c : Call) : Prop :=
  forall f, c.brings = some f -> PlainHash f

theorem call_sound_of_plain (hn : n.Sound) (htier : n.lowerTier = none)
    (hplain : n.BringsPlain c) : (n.call c).Sound where
  toInvariant := call_invariant hn.toInvariant c
  right := cachesRight_keptByCalls.call hn.toInvariant hn.right c
  plain k f hf := by
    rcases get?_of_call hn.toInvariant htier hf with hold | hnew
    · exact hn.plain k f hold
    · exact hplain f hnew

theorem run_settled {config : Config sigma tau pi} (htier : config.lowerTier = none)
    {calls : List Call} (hplain : Along call BringsPlain (create config) calls) :
    (run call (create config) calls).Settled := by
  have hrun := run_of_along (fun n : Node sigma tau pi => n.Sound ∧ n.lowerTier = none)
    (fun m c hm hc => ⟨call_sound_of_plain hm.left hm.right hc,
      call_lowerTier hm.left.toInvariant hm.right c⟩)
    ⟨create_sound config, htier⟩ hplain
  exact settled_of_no_lowerTier hrun.left hrun.right

/-!
# What is located is read
-/

/-- In every state that calls can reach, a read of a hash answers with the fragment under
the located key, and with nothing when no key is located. -/
theorem run_locate_predicts_retrieve {config : Config sigma tau pi}
    (htier : config.lowerTier = none) {calls : List Call}
    (hplain : Along call BringsPlain (create config) calls)
    {ownTimes times otherTimes : ReadTimes}
    (hown : (run call (create config) calls).FreshAt ownTimes.read)
    (hfresh : (run call (create config) calls).FreshAt times.read)
    (hother : (run call (create config) calls).FreshAt otherTimes.read)
    {h : String} (hbare : ¬ keySeparator ∈ h.toList) (thread : Thread) (caller : Caller) :
    exists answer, ((run call (create config) calls).retrieve thread h caller ownTimes times
        otherTimes).1 = .ok answer ∧
      (forall f, answer = some f ->
        (run call (create config) calls).locate h caller = some f.key) ∧
      (answer = none -> (run call (create config) calls).locate h caller = none) := by
  have hsettled := run_settled htier hplain
  refine ⟨_, (hsettled.retrieve_replies hown hfresh hother hbare thread caller).answer,
    fun f hf => locate_eq_key hsettled.toConsistent hf, fun hnone => ?_⟩
  have hsome : ((run call (create config) calls).locate h caller).isSome =
      ((run call (create config) calls).located h caller).isSome :=
    located_isSome hsettled.toConsistent
  rw [hnone] at hsome
  exact Option.isNone_iff_eq_none.mp (by simpa using hsome)

end Node

section Sample

attribute [local instance] InventoryHash.constant

def sharedCalls : List Call :=
  [.mutation (.store firstCopy true Caller.internal 0 0),
    .mutation (.store acmeCopy true Caller.internal 0 0)]

theorem sharedCalls_locate_predicts_retrieve :
    exists answer, ((run Node.call (Node.create (Config.default "node" 200))
        sharedCalls).retrieve 0 "h" Caller.internal (readAt 1) (readAt 1) (readAt 1)).1 =
        .ok answer ∧
      (forall f, answer = some f -> (run Node.call (Node.create (Config.default "node" 200))
        sharedCalls).locate "h" Caller.internal = some f.key) ∧
      (answer = none -> (run Node.call (Node.create (Config.default "node" 200))
        sharedCalls).locate "h" Caller.internal = none) := by
  have hfresh : (run Node.call (Node.create (Config.default "node" 200))
      sharedCalls).FreshAt (readAt 1).read :=
    (Node.freshAt_iff _).mpr (by decide +kernel)
  apply Node.run_locate_predicts_retrieve rfl _ hfresh hfresh hfresh
  · decide
  · refine ⟨fun f hf => ?_, fun f hf => ?_, trivial⟩
    · cases hf
      decide
    · cases hf
      decide

end Sample

end Serving
end Membrane
