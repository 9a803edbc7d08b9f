import Mathlib.Algebra.BigOperators.Fin
import Mathlib.Algebra.Order.BigOperators.Group.Finset
import Mathlib.Data.Rat.Floor
import Membrane.Foundation.Transition

/-!
# The concurrency limit

Every event loop has a semaphore with its share of the slots, rounded up.  A request
waits for a slot of its loop and gives it back when it is done.
-/

namespace Membrane
namespace Transport

open Foundation

def perLoop (maxConcurrency loops : Nat) : Nat :=
  max 1 ⌈(maxConcurrency : ℚ) / max 1 loops⌉₊

@[ext]
structure InFlight where
  active : Int
  waiting : Int

def InFlight.add (c : InFlight) (active waiting : Int) : InFlight :=
  { active := c.active + active, waiting := c.waiting + waiting }

structure LimitedLoops (loops : Nat) where
  free : Fin loops -> Nat
  inFlight : InFlight
  waiting : List (Nat × Fin loops)
  running : List (Nat × Fin loops)

/-- A request gives up when its wait times out or is cancelled, and finishes when the
application returns, fails or is cancelled. -/
inductive LimitEvent (loops : Nat) where
  | exempt
  | arrive (r : Nat × Fin loops)
  | acquire (r : Nat × Fin loops)
  | giveUp (r : Nat × Fin loops)
  | finish (r : Nat × Fin loops)

namespace LimitedLoops

variable {loops : Nat}

def create (maxConcurrency loops : Nat) : LimitedLoops loops :=
  { free := fun _ => perLoop maxConcurrency loops
    inFlight := { active := 0, waiting := 0 }
    waiting := []
    running := [] }

def step (s : LimitedLoops loops) : LimitEvent loops -> LimitedLoops loops
  | .exempt => s
  | .arrive r => { s with waiting := r :: s.waiting, inFlight := s.inFlight.add 0 1 }
  | .acquire r =>
    if r ∈ s.waiting ∧ 0 < s.free r.2 then
      { free := Function.update s.free r.2 (s.free r.2 - 1)
        inFlight := (s.inFlight.add 0 (-1)).add 1 0
        waiting := s.waiting.erase r
        running := r :: s.running }
    else s
  | .giveUp r =>
    if r ∈ s.waiting then
      { s with waiting := s.waiting.erase r, inFlight := s.inFlight.add 0 (-1) }
    else s
  | .finish r =>
    if r ∈ s.running then
      { s with
        free := Function.update s.free r.2 (s.free r.2 + 1)
        inFlight := s.inFlight.add (-1) 0
        running := s.running.erase r }
    else s

def runningOn (s : LimitedLoops loops) (loop : Fin loops) : Nat :=
  s.running.countP (fun r => decide (r.2 = loop))

structure Balanced (limit : Nat) (s : LimitedLoops loops) : Prop where
  slots : forall loop, s.free loop + s.runningOn loop = limit
  active : s.inFlight.active = s.running.length
  waiting : s.inFlight.waiting = s.waiting.length

variable {limit : Nat} {s : LimitedLoops loops}

theorem Balanced.acquire (h : s.Balanced limit) {r : Nat × Fin loops} (hwaits : r ∈ s.waiting)
    (hfree : 0 < s.free r.2) : (s.step (.acquire r)).Balanced limit := by
  have hlength := List.length_erase_of_mem hwaits
  have hpos := List.length_pos_of_mem hwaits
  have hactive := h.active
  have hwaiting := h.waiting
  rw [LimitedLoops.step, if_pos ⟨hwaits, hfree⟩]
  refine { slots := fun loop => ?_, active := ?_, waiting := ?_ }
  · have hslots := h.slots loop
    unfold runningOn at hslots ⊢
    rcases eq_or_ne loop r.2 with rfl | hother
    · simp only [Function.update_self, List.countP_cons, decide_true, if_true]
      omega
    · simpa [Function.update_of_ne hother, hother.symm] using hslots
  · simp only [InFlight.add, List.length_cons]
    omega
  · simp only [InFlight.add]
    omega

theorem Balanced.finish (h : s.Balanced limit) {r : Nat × Fin loops} (hruns : r ∈ s.running) :
    (s.step (.finish r)).Balanced limit := by
  have hlength := List.length_erase_of_mem hruns
  have hpos := List.length_pos_of_mem hruns
  have hactive := h.active
  rw [LimitedLoops.step, if_pos hruns]
  refine { slots := fun loop => ?_, active := ?_, waiting := ?_ }
  · have hslots := h.slots loop
    unfold runningOn at hslots ⊢
    rw [(List.perm_cons_erase hruns).countP_eq, List.countP_cons] at hslots
    rcases eq_or_ne loop r.2 with rfl | hother
    · simp only [Function.update_self, decide_true, if_true] at hslots ⊢
      omega
    · simpa [Function.update_of_ne hother, hother.symm] using hslots
  · simp only [InFlight.add]
    omega
  · exact (add_zero _).trans h.waiting

theorem Balanced.step (h : s.Balanced limit) (event : LimitEvent loops) :
    (s.step event).Balanced limit := by
  have hwaiting := h.waiting
  cases event with
  | exempt => exact h
  | arrive r =>
    refine { slots := h.slots, active := (add_zero _).trans h.active, waiting := ?_ }
    simp only [LimitedLoops.step, InFlight.add, List.length_cons]
    omega
  | acquire r =>
    by_cases hgranted : r ∈ s.waiting ∧ 0 < s.free r.2
    · exact h.acquire hgranted.left hgranted.right
    · rw [LimitedLoops.step, if_neg hgranted]
      exact h
  | giveUp r =>
    rw [LimitedLoops.step]
    split_ifs with hwaits
    · refine { slots := h.slots, active := (add_zero _).trans h.active, waiting := ?_ }
      have hlength := List.length_erase_of_mem hwaits
      have hpos := List.length_pos_of_mem hwaits
      simp only [InFlight.add]
      omega
    · exact h
  | finish r =>
    by_cases hruns : r ∈ s.running
    · exact h.finish hruns
    · rw [LimitedLoops.step, if_neg hruns]
      exact h

theorem length_running (s : LimitedLoops loops) :
    s.running.length = ∑ loop, s.runningOn loop := by
  unfold runningOn
  induction s.running with
  | nil => simp
  | cons r rest ih => simp [List.countP_cons, Finset.sum_add_distrib, ih]

theorem mul_perLoop {maxConcurrency : Nat} (hmax : 1 ≤ maxConcurrency)
    (hshares : loops ∣ maxConcurrency) :
    loops * perLoop maxConcurrency loops = maxConcurrency := by
  rcases hshares with ⟨share, rfl⟩
  have hloops : 0 < loops := Nat.pos_of_mul_pos_right hmax
  have hshare : 0 < share := Nat.pos_of_mul_pos_left hmax
  have hexact : ((loops * share : Nat) : ℚ) / (max 1 loops : Nat) = (share : ℚ) := by
    rw [max_eq_right hloops, Nat.cast_mul, mul_div_cancel_left₀]
    exact Nat.cast_ne_zero.mpr hloops.ne'
  unfold perLoop
  rw [hexact, Nat.ceil_natCast, max_eq_right hshare]

def Idles (maxConcurrency : Nat) (s : LimitedLoops loops) : Prop :=
  s.waiting = [] -> s.running = [] ->
    (forall loop, s.free loop = perLoop maxConcurrency loops) ∧ s.inFlight = ⟨0, 0⟩

structure Limited (maxConcurrency : Nat) (s : LimitedLoops loops) : Prop where
  bound : s.running.length ≤ maxConcurrency
  idle : s.Idles maxConcurrency

theorem Balanced.idles {maxConcurrency : Nat} {s : LimitedLoops loops}
    (h : s.Balanced (perLoop maxConcurrency loops)) : s.Idles maxConcurrency := by
  intro hwaiting hrunning
  constructor
  · intro loop
    have hslots := h.slots loop
    unfold runningOn at hslots
    rw [hrunning] at hslots
    exact hslots
  · have hactive := h.active
    have hcounted := h.waiting
    rw [hrunning] at hactive
    rw [hwaiting] at hcounted
    exact InFlight.ext hactive hcounted

/-- An idle server has all its slots, and the limit holds across all loops when it is divided
without a remainder. -/
theorem run_limited (maxConcurrency loops : Nat) (hmax : 1 ≤ maxConcurrency)
    (events : List (LimitEvent loops)) :
    Throughout step (Idles maxConcurrency) (create maxConcurrency loops) events ∧
      (loops ∣ maxConcurrency ->
        Throughout step (Limited maxConcurrency) (create maxConcurrency loops) events) := by
  have hstart : (create maxConcurrency loops).Balanced (perLoop maxConcurrency loops) :=
    { slots := fun _ => rfl, active := rfl, waiting := rfl }
  have hbalanced := throughout_of_step (Balanced _) (fun _ event hs => hs.step event) hstart
    events
  constructor
  · intro completed hle
    exact (hbalanced completed hle).idles
  · intro hshares completed hle
    have h := hbalanced completed hle
    refine { bound := ?_, idle := h.idles }
    calc (run step (create maxConcurrency loops) completed).running.length
        = ∑ loop, runningOn _ loop := length_running _
      _ ≤ ∑ _ : Fin loops, perLoop maxConcurrency loops :=
        Finset.sum_le_sum (fun loop _ => (h.slots loop).symm ▸ Nat.le_add_left _ _)
      _ = maxConcurrency := by simp [mul_perLoop hmax hshares]

/-- A third request waits until one of the two loops has a slot again. -/
theorem run_limited_of_shares :
    Throughout step (Limited 2) (create 2 2)
      [.arrive (0, 0), .acquire (0, 0), .arrive (1, 1), .acquire (1, 1), .arrive (2, 0),
        .acquire (2, 0), .finish (0, 0), .acquire (2, 0), .finish (1, 1), .finish (2, 0)] :=
  (run_limited 2 2 (by decide) _).right (by decide)

/-- With a limit of one, each of two loops runs a request. -/
theorem run_exceeds_limit : ¬ Throughout step (Limited 1) (create 1 2)
    [.arrive (0, 0), .acquire (0, 0), .arrive (1, 1), .acquire (1, 1)] := by
  intro h
  have hbound := (h _ (List.prefix_refl _)).bound
  revert hbound
  decide +kernel

end LimitedLoops

end Transport
end Membrane
