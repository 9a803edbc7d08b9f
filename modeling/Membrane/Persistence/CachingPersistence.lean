import Membrane.Data.Fragment
import Membrane.Foundation.Dict
import Membrane.Foundation.Transition

/-!
# The persistence cache

A decorator keeps the fragments that pass through it in a dictionary in front of
the canonical backend.  The dictionary is locked for each access to it, but not
across an operation, so the calls of several threads meet between their steps:

* a store writes to the cache, then to the backend;
* a retrieve probes the cache, reads the backend on a miss, and fills the cache
  with what it read;
* a delete drops the cached entry, then deletes from the backend.

A step that reaches the backend may find it unavailable.
-/

namespace Membrane
namespace Persistence

open Foundation Data

inductive CacheCall where
  | caching (f : Fragment)
  | writing (f : Fragment)
  | stored (ok : Bool)
  | probing (contentHash : String)
  | reading (contentHash : String)
  | filling (contentHash : String) (f : Fragment)
  | retrieved (contentHash : String) (answer : Option Fragment)
  | invalidating (contentHash : String)
  | deleting (contentHash : String)
  | deleted (contentHash : String) (ok : Bool)
  deriving DecidableEq

structure CachingPersistence where
  inner : Dict String Fragment
  cache : Dict String Fragment
  calls : List CacheCall

inductive CacheEvent where
  | storeFragment (f : Fragment)
  | retrieveFragment (contentHash : String)
  | deleteFragment (contentHash : String)
  | advance (call : Nat) (available : Bool)

namespace CachingPersistence

def advance (s : CachingPersistence) (available : Bool) :
    CacheCall -> CacheCall × Dict String Fragment × Dict String Fragment
  | .caching f => (.writing f, s.cache.set f.key f, s.inner)
  | .writing f =>
    if available then (.stored true, s.cache, s.inner.set f.key f)
    else (.stored false, s.cache, s.inner)
  | .probing h =>
    match s.cache.get? h with
    | some f => (.retrieved h (some f), s.cache, s.inner)
    | none => (.reading h, s.cache, s.inner)
  | .reading h =>
    if available then
      match s.inner.get? h with
      | some f => (.filling h f, s.cache, s.inner)
      | none => (.retrieved h none, s.cache, s.inner)
    else (.retrieved h none, s.cache, s.inner)
  | .filling h f => (.retrieved h (some f), s.cache.set h f, s.inner)
  | .invalidating h => (.deleting h, s.cache.erase h, s.inner)
  | .deleting h =>
    if available then (.deleted h true, s.cache, s.inner.erase h)
    else (.deleted h false, s.cache, s.inner)
  | finished => (finished, s.cache, s.inner)

def advanceCall (s : CachingPersistence) (i : Nat) (available : Bool) :
    CachingPersistence :=
  match s.calls[i]? with
  | none => s
  | some call =>
    { inner := (s.advance available call).2.2
      cache := (s.advance available call).2.1
      calls := s.calls.set i (s.advance available call).1 }

def begin (s : CachingPersistence) (call : CacheCall) : CachingPersistence :=
  { s with calls := s.calls ++ [call] }

def step (s : CachingPersistence) : CacheEvent -> CachingPersistence
  | .storeFragment f => s.begin (.caching f)
  | .retrieveFragment h => s.begin (.probing h)
  | .deleteFragment h => s.begin (.invalidating h)
  | .advance i available => s.advanceCall i available

def Stores (h : String) (s : CachingPersistence) : CacheEvent -> Prop
  | .advance i _ =>
    exists f, f.key = h ∧ (s.calls[i]? = some (.caching f) ∨ s.calls[i]? = some (.writing f))
  | _ => False

/-- After the delete that completes with the event, and until the hash is stored
again, every retrieve that has not begun by then comes back empty. -/
def StaysDeleted (s : CachingPersistence) (before : List CacheEvent) (i : Nat)
    (after : List CacheEvent) : Prop :=
  forall (h : String) (reader : Nat) (answer : Option Fragment),
    (run step s before).calls[i]? = some (.deleting h) ->
    Along step (fun s event => ¬ Stores h s event)
      (run step s (before ++ [.advance i true])) after ->
    (forall call : CacheCall,
      (run step s (before ++ [.advance i true])).calls[reader]? = some call ->
      call = .probing h) ->
    (run step s (before ++ .advance i true :: after)).calls[reader]? =
      some (.retrieved h answer) ->
    answer = none

/-!
# Steps
-/

theorem begin_calls {s : CachingPersistence} {first : CacheCall} {j : Nat}
    {call : CacheCall} (h : (s.begin first).calls[j]? = some call) :
    s.calls[j]? = some call ∨ call = first := by
  have happend : (s.calls ++ [first])[j]? = some call := h
  rcases Nat.lt_or_ge j s.calls.length with hj | hj
  · rw [List.getElem?_append_left hj] at happend
    exact Or.inl happend
  · rw [List.getElem?_append_right hj] at happend
    have hmem := List.mem_of_getElem? happend
    exact Or.inr (List.mem_singleton.mp hmem)

variable {i reader : Nat} {event : CacheEvent}

theorem advanceCall_of_some {s : CachingPersistence} {call : CacheCall} (available : Bool)
    (h : s.calls[i]? = some call) :
    s.advanceCall i available =
      { inner := (s.advance available call).2.2
        cache := (s.advance available call).2.1
        calls := s.calls.set i (s.advance available call).1 } := by
  unfold advanceCall
  simp only [h]

theorem advanceCall_of_none {s : CachingPersistence} (available : Bool) (h : s.calls[i]? = none)
    : s.advanceCall i available = s := by
  unfold advanceCall
  simp only [h]

theorem advanceCall_calls {s : CachingPersistence} {j : Nat} {available : Bool}
    {call next : CacheCall} (hi : s.calls[i]? = some call)
    (h : (s.advanceCall i available).calls[j]? = some next) :
    s.calls[j]? = some next ∨ j = i ∧ next = (s.advance available call).1 := by
  rw [advanceCall_of_some available hi] at h
  by_cases hij : i = j
  · have hlt : i < s.calls.length := (List.getElem?_eq_some_iff.mp hi).1
    rw [← hij, List.getElem?_set_self hlt] at h
    exact Or.inr ⟨hij.symm, (Option.some.inj h).symm⟩
  · rw [List.getElem?_set_ne hij] at h
    exact Or.inl h

section Advance

variable {s : CachingPersistence} {available : Bool} {call : CacheCall} {h : String}

theorem mem_of_advance (available : Bool) (call : CacheCall) (h : String) :
    (h ∈ (s.advance available call).2.1 -> h ∈ s.cache ∨
        (exists f, f.key = h ∧ call = .caching f) ∨ exists f, call = .filling h f) ∧
      (h ∈ (s.advance available call).2.2 ->
        h ∈ s.inner ∨ exists f, f.key = h ∧ call = .writing f) := by
  cases call with
  | caching f =>
    refine ⟨fun hmem => ?_, Or.inl⟩
    rcases (Dict.mem_set s.cache f.key f h).mp hmem with hkey | hold
    · exact Or.inr (Or.inl ⟨f, hkey.symm, rfl⟩)
    · exact Or.inl hold
  | filling k f =>
    refine ⟨fun hmem => ?_, Or.inl⟩
    rcases (Dict.mem_set s.cache k f h).mp hmem with hkey | hold
    · rw [hkey]
      exact Or.inr (Or.inr ⟨f, rfl⟩)
    · exact Or.inl hold
  | invalidating k => exact ⟨fun hmem => Or.inl ((Dict.mem_erase s.cache k h).mp hmem).2, Or.inl⟩
  | writing f =>
    rw [advance]
    split
    · refine ⟨Or.inl, fun hmem => ?_⟩
      rcases (Dict.mem_set s.inner f.key f h).mp hmem with hkey | hold
      · exact Or.inr ⟨f, hkey.symm, rfl⟩
      · exact Or.inl hold
    · exact ⟨Or.inl, Or.inl⟩
  | deleting k =>
    rw [advance]
    split
    · exact ⟨Or.inl, fun hmem => Or.inl ((Dict.mem_erase s.inner k h).mp hmem).2⟩
    · exact ⟨Or.inl, Or.inl⟩
  | probing k | reading k =>
    rw [advance]
    repeat' split
    all_goals exact ⟨Or.inl, Or.inl⟩
  | stored ok | retrieved k answer | deleted k ok => exact ⟨Or.inl, Or.inl⟩

theorem advance_call {next : CacheCall} (hnext : (s.advance available call).1 = next) :
    match next with
    | .filling h _ => call = .reading h ∧ h ∈ s.inner
    | .deleting h => call = .invalidating h
    | .retrieved h (some f) =>
      call = .probing h ∧ h ∈ s.cache ∨ call = .filling h f ∨
        call = .retrieved h (some f)
    | _ => True := by
  cases call with
  | probing k =>
    rw [advance] at hnext
    split at hnext
    · rename_i hget
      subst hnext
      exact Or.inl ⟨rfl, Dict.mem_of_get? hget⟩
    · subst hnext
      trivial
  | reading k =>
    rw [advance] at hnext
    cases available with
    | false =>
      subst hnext
      trivial
    | true =>
      cases hget : s.inner.get? k with
      | some f =>
        rw [hget] at hnext
        subst hnext
        exact ⟨rfl, Dict.mem_of_get? hget⟩
      | none =>
        rw [hget] at hnext
        subst hnext
        trivial
  | filling k f =>
    subst hnext
    exact Or.inr (Or.inl rfl)
  | invalidating k =>
    subst hnext
    exact rfl
  | retrieved k answer =>
    subst hnext
    cases answer with
    | none => trivial
    | some f => exact Or.inr (Or.inr rfl)
  | writing f | deleting k =>
    subst hnext
    cases available <;> trivial
  | caching f | stored ok | deleted k ok =>
    subst hnext
    trivial

end Advance

/-!
# Deletes that no fill overlaps

Between the two steps of a delete the cache lacks the hash and no fill of it is
on its way, as long as nobody reads the backend or stores the hash in between.
-/

structure Invalidated (h : String) (s : CachingPersistence) : Prop where
  cache : ¬ h ∈ s.cache
  fills : forall (j : Nat) (f : Fragment), s.calls[j]? ≠ some (.filling h f)

def Refills (h : String) (s : CachingPersistence) : CacheEvent -> Prop
  | .advance i _ =>
    s.calls[i]? = some (.reading h) ∧ h ∈ s.inner ∨
      exists f, f.key = h ∧ s.calls[i]? = some (.caching f)
  | _ => False

/-- A delete drops the cached entry while no fill of the hash is pending, and
nothing refills the hash before the delete is through. -/
structure Exclusive (s : CachingPersistence) (event : CacheEvent) : Prop where
  drops : forall (i : Nat) (available : Bool) (h : String), event = .advance i available ->
    s.calls[i]? = some (.invalidating h) ->
    forall (j : Nat) (f : Fragment), s.calls[j]? ≠ some (.filling h f)
  refills : forall (j : Nat) (h : String), s.calls[j]? = some (.deleting h) ->
    ¬ Refills h s event

theorem invalidated_begin {s : CachingPersistence} {h : String} {call : CacheCall}
    (hcall : forall f, call ≠ .filling h f) (hs : Invalidated h s) :
    Invalidated h (s.begin call) := by
  constructor
  · exact hs.cache
  · intro j f hj
    rcases begin_calls hj with hold | hnew
    · exact hs.fills j f hold
    · exact hcall f hnew.symm

theorem invalidated_step {s : CachingPersistence} {h : String} (hs : Invalidated h s)
    (hevent : ¬ Refills h s event) : Invalidated h (s.step event) := by
  cases event with
  | storeFragment f | retrieveFragment k | deleteFragment k =>
    exact invalidated_begin (by simp) hs
  | advance i available =>
    show Invalidated h (s.advanceCall i available)
    cases hi : s.calls[i]? with
    | none =>
      rw [advanceCall_of_none available hi]
      exact hs
    | some call =>
      constructor
      · intro hmem
        rw [advanceCall_of_some available hi] at hmem
        rcases (mem_of_advance available call h).left hmem with
          hold | ⟨f, hkey, hcall⟩ | ⟨f, hcall⟩
        · exact hs.cache hold
        · rw [hcall] at hi
          exact hevent (Or.inr ⟨f, hkey, hi⟩)
        · rw [hcall] at hi
          exact hs.fills i f hi
      · intro j f hj
        rcases advanceCall_calls hi hj with hold | ⟨_, hnext⟩
        · exact hs.fills j f hold
        · have hread := advance_call hnext.symm
          rw [hread.left] at hi
          exact hevent (Or.inl ⟨hi, hread.right⟩)

def DeletesClear (s : CachingPersistence) : Prop :=
  forall (j : Nat) (h : String), s.calls[j]? = some (.deleting h) -> Invalidated h s

theorem deletesClear_begin {s : CachingPersistence} {call : CacheCall}
    (hfill : forall h f, call ≠ .filling h f) (hdelete : forall h, call ≠ .deleting h)
    (hs : DeletesClear s) : DeletesClear (s.begin call) := by
  intro j h hj
  rcases begin_calls hj with hold | hnew
  · exact invalidated_begin (hfill h) (hs j h hold)
  · exact absurd hnew.symm (hdelete h)

theorem deletesClear_step {s : CachingPersistence} (hs : DeletesClear s)
    (hevent : Exclusive s event) : DeletesClear (s.step event) := by
  cases event with
  | storeFragment f | retrieveFragment k | deleteFragment k =>
    exact deletesClear_begin (by simp) (by simp) hs
  | advance i available =>
    intro j h hj
    have hj : (s.advanceCall i available).calls[j]? = some (.deleting h) := hj
    cases hi : s.calls[i]? with
    | none =>
      rw [advanceCall_of_none available hi] at hj
      exact invalidated_step (hs j h hj) (hevent.refills j h hj)
    | some call =>
      rcases advanceCall_calls hi hj with hold | ⟨_, hnext⟩
      · exact invalidated_step (hs j h hold) (hevent.refills j h hold)
      · have hcall : call = .invalidating h := advance_call hnext.symm
        rw [hcall] at hi
        have hfills := hevent.drops i available h rfl hi
        constructor
        · intro hmem
          have hmem : h ∈ (s.advanceCall i available).cache := hmem
          rw [advanceCall_of_some available hi] at hmem
          exact ((Dict.mem_erase s.cache h h).mp hmem).1 rfl
        · intro k f hk
          rcases advanceCall_calls hi hk with hold | ⟨_, hother⟩
          · exact hfills k f hold
          · cases hother

/-!
# Deleted hashes stay deleted
-/

structure Gone (h : String) (reader : Nat) (s : CachingPersistence) : Prop where
  invalidated : Invalidated h s
  inner : ¬ h ∈ s.inner
  answer : forall f : Fragment, s.calls[reader]? ≠ some (.retrieved h (some f))

theorem gone_begin {s : CachingPersistence} {h : String} {call : CacheCall}
    (hfill : forall f, call ≠ .filling h f) (hcall : forall f, call ≠ .retrieved h (some f))
    (hs : Gone h reader s) : Gone h reader (s.begin call) := by
  constructor
  · exact invalidated_begin hfill hs.invalidated
  · exact hs.inner
  · intro f hf
    rcases begin_calls hf with hold | hnew
    · exact hs.answer f hold
    · exact hcall f hnew.symm

theorem gone_step {s : CachingPersistence} {h : String} (hs : Gone h reader s)
    (hevent : ¬ Stores h s event) : Gone h reader (s.step event) := by
  cases event with
  | storeFragment f | retrieveFragment k | deleteFragment k =>
    exact gone_begin (by simp) (by simp) hs
  | advance i available =>
    show Gone h reader (s.advanceCall i available)
    cases hi : s.calls[i]? with
    | none =>
      rw [advanceCall_of_none available hi]
      exact hs
    | some call =>
      have hrefills : ¬ Refills h s (.advance i available) := by
        intro hrefill
        rcases hrefill with ⟨_, hinner⟩ | ⟨f, hkey, hcall⟩
        · exact hs.inner hinner
        · exact hevent ⟨f, hkey, Or.inl hcall⟩
      refine ⟨invalidated_step hs.invalidated hrefills, ?_, ?_⟩
      · rw [advanceCall_of_some available hi]
        intro hmem
        rcases (mem_of_advance available call h).right hmem with hold | ⟨f, hkey, hcall⟩
        · exact hs.inner hold
        · rw [hcall] at hi
          exact hevent ⟨f, hkey, Or.inr hi⟩
      · intro f hf
        rcases advanceCall_calls hi hf with hold | ⟨hreader, hnext⟩
        · exact hs.answer f hold
        · rcases advance_call hnext.symm with ⟨_, hcache⟩ | hcall | hcall
          · exact hs.invalidated.cache hcache
          · rw [hcall] at hi
            exact hs.invalidated.fills i f hi
          · rw [hcall, ← hreader] at hi
            exact hs.answer f hi

theorem gone_of_delete {s : CachingPersistence} {h : String} (hs : Invalidated h s)
    (hcall : s.calls[i]? = some (.deleting h))
    (hreader : forall call : CacheCall,
      (s.step (.advance i true)).calls[reader]? = some call -> call = .probing h) :
    Gone h reader (s.step (.advance i true)) := by
  have hrefills : ¬ Refills h s (.advance i true) := by
    intro hrefill
    rcases hrefill with ⟨hother, _⟩ | ⟨f, _, hother⟩
    · rw [hcall] at hother
      cases hother
    · rw [hcall] at hother
      cases hother
  refine ⟨invalidated_step hs hrefills, ?_, ?_⟩
  · show ¬ h ∈ (s.advanceCall i true).inner
    rw [advanceCall_of_some true hcall]
    intro hmem
    exact ((Dict.mem_erase s.inner h h).mp hmem).1 rfl
  · intro f hf
    cases hreader _ hf

/-- A hash whose deletes no fill overlaps is not retrieved again until it is
stored again. -/
theorem staysDeleted_of_exclusive {s : CachingPersistence} {before after : List CacheEvent}
    {i : Nat} (hstart : s.calls = [])
    (hexclusive : Along step Exclusive s (before ++ .advance i true :: after)) :
    StaysDeleted s before i after := by
  intro h reader answer hdelete hstores hlater hreturned
  have hbefore := (along_append.mp hexclusive).left
  have hclear : DeletesClear (run step s before) := by
    apply run_of_along DeletesClear (fun s event => deletesClear_step) _ hbefore
    intro j k hj
    rw [hstart] at hj
    cases hj
  rw [run_append] at hstores hlater
  have hgone := gone_of_delete (hclear i h hdelete) hdelete hlater
  have hend := run_of_along (Gone h reader) (fun s event => gone_step) hgone hstores
  rw [run_append] at hreturned
  cases answer with
  | none => rfl
  | some f => exact absurd hreturned (hend.answer f)

/-!
# A delete on its own
-/

theorem exclusive_begin {s : CachingPersistence}
    (h : forall i available, event ≠ .advance i available) : Exclusive s event := by
  constructor
  · intro i available k hevent
    exact absurd hevent (h i available)
  · intro j k _ hrefills
    cases event with
    | advance i available => exact h i available rfl
    | storeFragment f | retrieveFragment k | deleteFragment k => exact hrefills

theorem exclusive_advance {s : CachingPersistence} {calls : List CacheCall} {call : CacheCall}
    (available : Bool) (hs : s.calls = calls) (hcall : calls[i]? = some call)
    (hfills : forall k f, ¬ CacheCall.filling k f ∈ calls)
    (hdeletes : (exists k, call = .deleting k) ∨ forall k, ¬ CacheCall.deleting k ∈ calls) :
    Exclusive s (.advance i available) := by
  subst hs
  constructor
  · intro _ _ h _ _ j f hj
    exact hfills h f (List.mem_of_getElem? hj)
  · intro j h hj hrefills
    rcases hdeletes with ⟨k, hk⟩ | hnone
    · rw [hk] at hcall
      rcases hrefills with ⟨hother, _⟩ | ⟨f, _, hother⟩
      · rw [hcall] at hother
        cases hother
      · rw [hcall] at hother
        cases hother
    · exact hnone h (List.mem_of_getElem? hj)

def oneFragment : CachingPersistence :=
  { inner := Dict.empty.set publicCopy.key publicCopy
    cache := Dict.empty
    calls := [] }

def deleteFirst : List CacheEvent :=
  [.deleteFragment publicCopy.key, .advance 0 true]

def retrieveNext : List CacheEvent :=
  [.retrieveFragment publicCopy.key, .advance 1 true, .advance 1 true]

theorem deleteFirst_exclusive : Along step Exclusive oneFragment
    (deleteFirst ++ .advance 0 true :: retrieveNext) := by
  refine ⟨exclusive_begin (by simp), ?_, ?_, exclusive_begin (by simp), ?_, ?_, trivial⟩
  · have hcalls : (run step oneFragment [.deleteFragment publicCopy.key]).calls =
        [.invalidating publicCopy.key] := by decide
    exact exclusive_advance true hcalls rfl (by simp) (Or.inr (by simp))
  · have hcalls : (run step oneFragment deleteFirst).calls =
        [.deleting publicCopy.key] := by decide
    exact exclusive_advance true hcalls rfl (by simp) (Or.inl ⟨_, rfl⟩)
  · have hcalls : (run step oneFragment (deleteFirst ++ [.advance 0 true,
        .retrieveFragment publicCopy.key])).calls =
        [.deleted publicCopy.key true, .probing publicCopy.key] := by decide
    exact exclusive_advance true hcalls rfl (by simp) (Or.inr (by simp))
  · have hcalls : (run step oneFragment (deleteFirst ++ [.advance 0 true,
        .retrieveFragment publicCopy.key, .advance 1 true])).calls =
        [.deleted publicCopy.key true, .reading publicCopy.key] := by decide
    exact exclusive_advance true hcalls rfl (by simp) (Or.inr (by simp))

theorem deleteFirst_staysDeleted :
    Along step Exclusive oneFragment (deleteFirst ++ .advance 0 true :: retrieveNext) ∧
      StaysDeleted oneFragment deleteFirst 0 retrieveNext :=
  ⟨deleteFirst_exclusive, staysDeleted_of_exclusive rfl deleteFirst_exclusive⟩

/-!
# A fill that lands after the delete
-/

def readThenDrop : List CacheEvent :=
  [.retrieveFragment publicCopy.key, .advance 0 true, .advance 0 true,
    .deleteFragment publicCopy.key, .advance 1 true]

def fillThenProbe : List CacheEvent :=
  [.advance 0 true, .retrieveFragment publicCopy.key, .advance 2 true]

theorem not_stores_of_call {s : CachingPersistence} {calls : List CacheCall} {call : CacheCall}
    (h : String) (available : Bool) (hs : s.calls = calls) (hcall : calls[i]? = some call)
    (hother : forall f, call ≠ .caching f ∧ call ≠ .writing f) :
    ¬ Stores h s (.advance i available) := by
  subst hs
  rintro ⟨f, _, hstore | hstore⟩
  · rw [hcall] at hstore
    exact (hother f).left (Option.some.inj hstore)
  · rw [hcall] at hstore
    exact (hother f).right (Option.some.inj hstore)

theorem fillThenProbe_resurrects :
    ¬ StaysDeleted oneFragment readThenDrop 1 fillThenProbe := by
  intro hstays
  have hfill : (run step oneFragment (readThenDrop ++ [.advance 1 true])).calls =
      [.filling publicCopy.key publicCopy, .deleted publicCopy.key true] := by decide
  have hprobe : (run step oneFragment (readThenDrop ++ [.advance 1 true, .advance 0 true,
      .retrieveFragment publicCopy.key])).calls =
      [.retrieved publicCopy.key (some publicCopy), .deleted publicCopy.key true,
        .probing publicCopy.key] := by decide
  have hanswer := hstays publicCopy.key 2 (some publicCopy) (by decide)
    ⟨not_stores_of_call publicCopy.key true hfill rfl (by simp), fun hstores => hstores,
      not_stores_of_call publicCopy.key true hprobe rfl (by simp), trivial⟩
    (by decide) (by decide)
  cases hanswer

end CachingPersistence
end Persistence
end Membrane
