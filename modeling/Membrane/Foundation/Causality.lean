import Mathlib.Order.Lattice
import Membrane.Foundation.Transition

/-!
# Executions of communicating processes

Each process has a clock that it advances at every event of its own.  A message carries the
stamp of the event that sent it.  The events of an execution are listed in an order in which
every message is sent before it is received; a message may be received many times, or never.

An event happened before another one if there is a chain of events from the one to the other
in which every two neighbours belong to one process or are the two ends of a message.  The
stamps agree with this order if and only if every receive moves past the stamp it was sent.
-/

namespace Membrane
namespace Foundation

inductive ProcessAction (omega : Type) where
  | internal (input : omega)
  | send (input : omega)
  | receive (source : Nat)

structure ProcessEvent (iota omega : Type) where
  process : iota
  action : ProcessAction omega

/-- Every message that is received was sent by an earlier event. -/
structure Execution (iota omega : Type) where
  events : List (ProcessEvent iota omega)
  sent : forall (j source : Nat) (e : ProcessEvent iota omega),
    events[j]? = some e -> e.action = .receive source ->
      source < j ∧ exists (s : ProcessEvent iota omega) (input : omega),
        events[source]? = some s ∧ s.action = .send input

namespace Execution

variable {iota omega : Type}

def Direct (ex : Execution iota omega) (i j : Nat) : Prop :=
  i < j ∧ exists a b : ProcessEvent iota omega, ex.events[i]? = some a ∧ ex.events[j]? = some b ∧
    (a.process = b.process ∨ b.action = .receive i)

def HappenedBefore (ex : Execution iota omega) : Nat -> Nat -> Prop :=
  Relation.TransGen ex.Direct

end Execution

structure ClockRules (omega alpha gamma : Type) where
  tick : alpha -> omega -> alpha
  merge : alpha -> gamma -> alpha
  stamp : alpha -> gamma

/-- The clock of each process, and the clock values that the events so far produced. -/
structure Clocks (iota alpha : Type) where
  clock : iota -> alpha
  produced : List alpha

namespace Clocks

variable {iota omega alpha gamma : Type}

def start (seed : iota -> alpha) : Clocks iota alpha :=
  { clock := seed, produced := [] }

/-- The clock value of an event.  A message that was not sent changes nothing. -/
def advance (rules : ClockRules omega alpha gamma) (s : Clocks iota alpha)
    (e : ProcessEvent iota omega) : alpha :=
  match e.action with
  | .internal input | .send input => rules.tick (s.clock e.process) input
  | .receive source =>
    match s.produced[source]? with
    | none => s.clock e.process
    | some sender => rules.merge (s.clock e.process) (rules.stamp sender)

structure Forward [LinearOrder gamma] (rules : ClockRules omega alpha gamma) : Prop where
  tick : forall c input, rules.stamp c < rules.stamp (rules.tick c input)
  merge : forall c observed, rules.stamp c < rules.stamp (rules.merge c observed)

theorem stamp_le_advance [LinearOrder gamma] {rules : ClockRules omega alpha gamma}
    (h : Forward rules) (s : Clocks iota alpha) (e : ProcessEvent iota omega) :
    rules.stamp (s.clock e.process) ≤ rules.stamp (s.advance rules e) := by
  unfold advance
  cases e.action with
  | internal input | send input => exact le_of_lt (h.tick _ _)
  | receive source =>
    cases hsender : s.produced[source]? with
    | none =>
      simp only [hsender]
      exact le_refl _
    | some sender =>
      simp only [hsender]
      exact le_of_lt (h.merge _ _)

variable [DecidableEq iota]

def step (rules : ClockRules omega alpha gamma) (s : Clocks iota alpha)
    (e : ProcessEvent iota omega) : Clocks iota alpha :=
  { clock := Function.update s.clock e.process (s.advance rules e)
    produced := s.produced ++ [s.advance rules e] }

/-!
# What the events produced
-/

variable (rules : ClockRules omega alpha gamma) (seed : iota -> alpha)

theorem length_produced (events : List (ProcessEvent iota omega)) :
    (run (step rules) (start seed) events).produced.length = events.length := by
  induction events using List.reverseRecOn with
  | nil => rfl
  | append_singleton init last ih =>
    rw [run_append, List.length_append, ← ih]
    exact List.length_append

theorem produced_getElem? (events : List (ProcessEvent iota omega)) (j : Nat) :
    (run (step rules) (start seed) events).produced[j]? =
      events[j]?.map (advance rules (run (step rules) (start seed) (events.take j))) := by
  induction events using List.reverseRecOn with
  | nil => rfl
  | append_singleton init last ih =>
    have hlength := length_produced rules seed init
    rw [run_append]
    show ((run (step rules) (start seed) init).produced ++
      [advance rules (run (step rules) (start seed) init) last])[j]? = _
    rcases Nat.lt_trichotomy j init.length with hlt | heq | hgt
    · rw [List.getElem?_append_left (by omega), List.getElem?_append_left hlt,
        List.take_append_of_le_length (Nat.le_of_lt hlt)]
      exact ih
    · subst heq
      rw [List.getElem?_append_right (by omega), List.getElem?_append_right (le_refl _),
        List.take_left, hlength, Nat.sub_self]
      rfl
    · rw [List.getElem?_eq_none (by rw [List.length_append, List.length_singleton]; omega),
        List.getElem?_eq_none (by rw [List.length_append, List.length_singleton]; omega)]
      rfl

theorem exists_sender (ex : Execution iota omega) {j source : Nat} {e : ProcessEvent iota omega}
    (he : ex.events[j]? = some e) (hreceive : e.action = .receive source) :
    exists sender,
      (run (step rules) (start seed) (ex.events.take j)).produced[source]? = some sender ∧
      (run (step rules) (start seed) ex.events).produced[source]? = some sender := by
  rcases ex.sent j source e he hreceive with ⟨hearlier, s, input, hs, _⟩
  have htake : (ex.events.take j)[source]? = some s := by
    rw [List.getElem?_take_of_lt hearlier]
    exact hs
  refine ⟨advance rules (run (step rules) (start seed) (ex.events.take source)) s, ?_, ?_⟩
  · rw [produced_getElem?, htake, List.take_take, Nat.min_eq_left (Nat.le_of_lt hearlier)]
    rfl
  · rw [produced_getElem?, hs]
    rfl

/-!
# Stamps and the order of events
-/

variable [LinearOrder gamma] {rules : ClockRules omega alpha gamma}

theorem stamp_le_clock (h : Forward rules) (events : List (ProcessEvent iota omega))
    {i : Nat} {e : ProcessEvent iota omega} {a : alpha} (he : events[i]? = some e)
    (ha : (run (step rules) (start seed) events).produced[i]? = some a) :
    rules.stamp a ≤
      rules.stamp ((run (step rules) (start seed) events).clock e.process) := by
  induction events using List.reverseRecOn with
  | nil => cases he
  | append_singleton init last ih =>
    have hlength := length_produced rules seed init
    rw [run_append] at ha ⊢
    generalize run (step rules) (start seed) init = s at hlength ih ha ⊢
    change (s.produced ++ [s.advance rules last])[i]? = some a at ha
    show rules.stamp a ≤
      rules.stamp (Function.update s.clock last.process (s.advance rules last) e.process)
    rcases Nat.lt_or_ge i init.length with hlt | hge
    · rw [List.getElem?_append_left hlt] at he
      rw [List.getElem?_append_left (by omega)] at ha
      have hbehind := ih he ha
      by_cases hprocess : e.process = last.process
      · rw [hprocess, Function.update_self]
        rw [hprocess] at hbehind
        exact le_trans hbehind (stamp_le_advance h s last)
      · rw [Function.update_of_ne hprocess]
        exact hbehind
    · rw [List.getElem?_append_right hge] at he
      rw [List.getElem?_append_right (by omega)] at ha
      have hlast := List.mem_singleton.mp (List.mem_of_getElem? he)
      have hvalue := List.mem_singleton.mp (List.mem_of_getElem? ha)
      rw [hlast, hvalue, Function.update_self]

def Overtakes (rules : ClockRules omega alpha gamma) (s : Clocks iota alpha)
    (e : ProcessEvent iota omega) : Prop :=
  forall source sender, e.action = .receive source -> s.produced[source]? = some sender ->
    rules.stamp sender < rules.stamp (s.advance rules e)

def Ordered (rules : ClockRules omega alpha gamma) (seed : iota -> alpha)
    (ex : Execution iota omega) : Prop :=
  forall i j, ex.HappenedBefore i j -> forall a b,
    (run (step rules) (start seed) ex.events).produced[i]? = some a ->
    (run (step rules) (start seed) ex.events).produced[j]? = some b ->
    rules.stamp a < rules.stamp b

variable {seed}

theorem stamp_lt_of_process (h : Forward rules) (ex : Execution iota omega) {i j : Nat}
    {e f : ProcessEvent iota omega} {a b : alpha} (hij : i < j) (he : ex.events[i]? = some e)
    (hf : ex.events[j]? = some f) (hprocess : e.process = f.process)
    (ha : (run (step rules) (start seed) ex.events).produced[i]? = some a)
    (hb : (run (step rules) (start seed) ex.events).produced[j]? = some b) :
    rules.stamp a < rules.stamp b := by
  rw [produced_getElem?, hf, Option.map_some] at hb
  have hb := Option.some.inj hb
  have htake : (ex.events.take j)[i]? = some e := by
    rw [List.getElem?_take_of_lt hij]
    exact he
  have hproduced : (run (step rules) (start seed) (ex.events.take j)).produced[i]? =
      some a := by
    rw [produced_getElem?, htake, List.take_take, Nat.min_eq_left (Nat.le_of_lt hij)]
    rw [produced_getElem?, he] at ha
    exact ha
  have hbehind := stamp_le_clock seed h (ex.events.take j) htake hproduced
  rw [hprocess] at hbehind
  refine lt_of_le_of_lt hbehind ?_
  rw [← hb]
  unfold advance
  cases haction : f.action with
  | internal input | send input => exact h.tick _ _
  | receive source =>
    rcases exists_sender rules seed ex hf haction with ⟨sender, hsender, _⟩
    simp only [hsender]
    exact h.merge _ _

theorem stamp_lt_of_direct (h : Forward rules) {ex : Execution iota omega}
    (hovertakes : forall j e, ex.events[j]? = some e ->
      Overtakes rules (run (step rules) (start seed) (ex.events.take j)) e)
    {i j : Nat} (hdirect : ex.Direct i j) (a b : alpha)
    (ha : (run (step rules) (start seed) ex.events).produced[i]? = some a)
    (hb : (run (step rules) (start seed) ex.events).produced[j]? = some b) :
    rules.stamp a < rules.stamp b := by
  rcases hdirect with ⟨hij, e, f, he, hf, hprocess | hreceive⟩
  · exact stamp_lt_of_process h ex hij he hf hprocess ha hb
  · rcases exists_sender rules seed ex hf hreceive with
      ⟨sender, hsender, hproduced⟩
    have hsame : a = sender := Option.some.inj (ha.symm.trans hproduced)
    rw [produced_getElem?, hf] at hb
    rw [hsame, ← Option.some.inj hb]
    exact hovertakes j f hf i sender hreceive hsender

/-- The stamps agree with the order of the events exactly when every receive moves past the
stamp of its message. -/
theorem ordered_iff (h : Forward rules) (seed : iota -> alpha) (ex : Execution iota omega) :
    Ordered rules seed ex <->
      Along (step rules) (Overtakes rules) (start seed) ex.events := by
  rw [along_iff_getElem?]
  constructor
  · intro hordered j e he source sender hreceive hsender
    rcases ex.sent j source e he hreceive with ⟨hearlier, s, input, hs, _⟩
    rcases exists_sender rules seed ex he hreceive with
      ⟨other, hother, hproduced⟩
    have hsame : sender = other := Option.some.inj (hsender.symm.trans hother)
    rw [hsame]
    apply hordered source j (Relation.TransGen.single ⟨hearlier, s, e, hs, he, Or.inr hreceive⟩)
      other _ hproduced
    rw [produced_getElem?, he]
    rfl
  · intro hovertakes i j hbefore
    induction hbefore with
    | single hdirect => exact stamp_lt_of_direct h hovertakes hdirect
    | @tail middle last _ hdirect ih =>
      intro a b ha hb
      rcases hdirect.right with ⟨e, _, he, _⟩
      have hmiddle := produced_getElem? rules seed ex.events middle
      rw [he] at hmiddle
      exact lt_trans (ih a _ ha hmiddle)
        (stamp_lt_of_direct h hovertakes hdirect _ b hmiddle hb)

end Clocks

end Foundation
end Membrane
