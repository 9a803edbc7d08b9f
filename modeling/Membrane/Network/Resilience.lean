import Mathlib.Algebra.Order.Field.Rat
import Membrane.Foundation.Transition

/-!
# Backoff and circuit breaking

After a number of consecutive failed calls a breaker opens, and calls fail fast.  When
the cool-down is over one trial call is let through, and its outcome closes the breaker
or opens it again.
-/

namespace Membrane
namespace Network

structure RetryPolicy where
  maxAttempts : Int
  baseDelay : ℚ
  maxDelay : ℚ

def computeBackoff (policy : RetryPolicy) (attempt : Nat) (random : ℚ) : ℚ :=
  min policy.maxDelay (policy.baseDelay * 2 ^ attempt) * random

structure CircuitBreakerPolicy where
  failureThreshold : Int
  coolDown : ℚ

structure CircuitBreaker where
  policy : CircuitBreakerPolicy
  failures : Nat
  openUntil : ℚ
  trialInFlight : Bool

namespace CircuitBreaker

def create (policy : CircuitBreakerPolicy) : CircuitBreaker :=
  { policy := policy, failures := 0, openUntil := 0, trialInFlight := false }

variable (b : CircuitBreaker)

def Closed : Prop :=
  (b.failures : Int) < b.policy.failureThreshold

instance : Decidable b.Closed :=
  inferInstanceAs (Decidable (_ < _))

def allow (now : ℚ) : Bool × CircuitBreaker :=
  if b.Closed then (true, b)
  else if now < b.openUntil ∨ b.trialInFlight = true then (false, b)
  else (true, { b with trialInFlight := true })

def recordFailure (now : ℚ) : CircuitBreaker :=
  let counted : CircuitBreaker :=
    { b with failures := b.failures + 1, trialInFlight := false }
  if counted.Closed then counted
  else { counted with openUntil := now + b.policy.coolDown }

def recordSuccess : CircuitBreaker :=
  { b with failures := 0, openUntil := 0, trialInFlight := false }

variable {b}

theorem allow_eq_true_iff {now : ℚ} :
    (b.allow now).1 = true <-> b.Closed ∨ b.openUntil ≤ now ∧ b.trialInFlight = false := by
  unfold allow
  split_ifs with hclosed hbusy
  · exact ⟨fun _ => Or.inl hclosed, fun _ => rfl⟩
  · refine ⟨fun h => absurd h (by decide), fun h => ?_⟩
    rcases h with h | ⟨hopen, htrial⟩
    · exact absurd h hclosed
    · rcases hbusy with hbusy | hbusy
      · exact absurd hopen (not_le.mpr hbusy)
      · rw [htrial] at hbusy
        cases hbusy
  · rw [not_or, not_lt, Bool.not_eq_true] at hbusy
    exact ⟨fun _ => Or.inr hbusy, fun _ => rfl⟩

theorem allow_snd (b : CircuitBreaker) (now : ℚ) :
    exists trial, (b.allow now).2 = { b with trialInFlight := trial } ∧
      (b.Closed -> trial = b.trialInFlight) := by
  unfold allow
  split_ifs with hclosed hbusy
  · exact ⟨b.trialInFlight, rfl, fun _ => rfl⟩
  · exact ⟨b.trialInFlight, rfl, fun _ => rfl⟩
  · exact ⟨true, rfl, fun h => absurd h hclosed⟩

@[simp] theorem recordFailure_policy (now : ℚ) :
    (b.recordFailure now).policy = b.policy := by
  unfold recordFailure
  simp only
  split_ifs <;> rfl

/-!
# Lockout
-/

/-- The trial has been claimed and the breaker is not closed, so nothing is let through. -/
structure Stuck (b : CircuitBreaker) : Prop where
  claimed : b.trialInFlight = true
  tripped : ¬ b.Closed

theorem Stuck.allow (h : b.Stuck) (now : ℚ) : b.allow now = (false, b) := by
  unfold CircuitBreaker.allow
  rw [if_neg h.tripped, if_pos (Or.inr h.claimed)]

/-- No trial is claimed, and an open breaker waits for the cool-down after the last
recorded failure. -/
structure Settled (b : CircuitBreaker) (lastFailure : Option ℚ) : Prop where
  unclaimed : b.trialInFlight = false
  cooling : ¬ b.Closed -> b.failures = 0 ∧ b.openUntil = 0 ∨
    exists time, lastFailure = some time ∧ b.openUntil = time + b.policy.coolDown

theorem create_settled (policy : CircuitBreakerPolicy) : (create policy).Settled none :=
  { unclaimed := rfl, cooling := fun _ => Or.inl ⟨rfl, rfl⟩ }

theorem recordSuccess_settled (b : CircuitBreaker) (lastFailure : Option ℚ) :
    b.recordSuccess.Settled lastFailure :=
  { unclaimed := rfl, cooling := fun _ => Or.inl ⟨rfl, rfl⟩ }

theorem recordFailure_settled (b : CircuitBreaker) (now : ℚ) :
    (b.recordFailure now).Settled (some now) := by
  unfold recordFailure
  simp only
  split_ifs with hclosed
  · exact { unclaimed := rfl, cooling := fun h => absurd hclosed h }
  · exact { unclaimed := rfl, cooling := fun _ => Or.inr ⟨now, rfl, rfl⟩ }

/-- When the cool-down after the last failure is over, the next call is let through. -/
theorem Settled.allow {lastFailure : Option ℚ} (h : b.Settled lastFailure) {now : ℚ}
    (hrested : forall time, lastFailure = some time -> time + b.policy.coolDown ≤ now)
    (hclock : 0 < b.policy.failureThreshold ∨ 0 ≤ now) : (b.allow now).1 = true := by
  rw [allow_eq_true_iff]
  by_cases hclosed : b.Closed
  · exact Or.inl hclosed
  · refine Or.inr ⟨?_, h.unclaimed⟩
    rcases h.cooling hclosed with ⟨hfailures, hopen⟩ | ⟨time, htime, hopen⟩
    · rcases hclock with hthreshold | hnow
      · exfalso
        apply hclosed
        unfold Closed
        rw [hfailures]
        exact hthreshold
      · rw [hopen]
        exact hnow
    · rw [hopen]
      exact hrested time htime

end CircuitBreaker

/-!
# Concurrent callers

Callers that were let through report their outcomes in any order.  A failure clears the
trial flag whoever reports it.
-/

open Foundation

/-- A breaker with the calls in flight: those let through at or above the threshold since
the last success, and all others. -/
structure Callers where
  breaker : CircuitBreaker
  trials : List Nat
  others : List Nat

inductive CallerEvent where
  | allow (caller : Nat) (now : ℚ)
  | recordFailure (caller : Nat) (now : ℚ)
  | recordSuccess (caller : Nat)

namespace Callers

def create (policy : CircuitBreakerPolicy) : Callers :=
  { breaker := CircuitBreaker.create policy, trials := [], others := [] }

def step (s : Callers) : CallerEvent -> Callers
  | .allow caller now =>
    let answer := s.breaker.allow now
    if answer.1 = false then s
    else if s.breaker.Closed then
      { s with breaker := answer.2, others := caller :: s.others }
    else { s with breaker := answer.2, trials := caller :: s.trials }
  | .recordFailure caller now =>
    { breaker := s.breaker.recordFailure now
      trials := s.trials.erase caller
      others := s.others.erase caller }
  | .recordSuccess caller =>
    { breaker := s.breaker.recordSuccess
      trials := []
      others := s.trials.erase caller ++ s.others.erase caller }

/-- A caller asks while no call of its own is in flight, and reports one that is. -/
def admissible (s : Callers) : CallerEvent -> Bool
  | .allow caller _ => caller ∉ s.trials ++ s.others
  | .recordFailure caller _ => caller ∈ s.trials ++ s.others
  | .recordSuccess caller => caller ∈ s.trials ++ s.others

def OwnFailure (s : Callers) : CallerEvent -> Prop
  | .recordFailure caller _ => s.trials = [] ∨ caller ∈ s.trials
  | _ => True

/-- The trial in flight holds the flag of a breaker that is not closed. -/
structure Guarded (s : Callers) : Prop where
  single : s.trials.length ≤ 1
  stuck : s.trials ≠ [] -> s.breaker.Stuck

variable {s : Callers}

theorem Guarded.allow (h : s.Guarded) (caller : Nat) (now : ℚ) :
    (s.step (.allow caller now)).Guarded := by
  unfold step
  simp only
  split_ifs with hrefused hclosed
  · exact h
  · have hnone : s.trials = [] := by
      by_contra hsome
      exact (h.stuck hsome).tripped hclosed
    exact { single := h.single, stuck := fun hsome => absurd hnone hsome }
  · have hnone : s.trials = [] := by
      by_contra hsome
      rw [(h.stuck hsome).allow] at hrefused
      exact hrefused rfl
    refine { single := by simp [hnone], stuck := fun _ => ?_ }
    unfold CircuitBreaker.allow at hrefused ⊢
    rw [if_neg hclosed] at hrefused ⊢
    split_ifs at hrefused ⊢ with hbusy
    · exact absurd rfl hrefused
    · exact { claimed := rfl, tripped := hclosed }

theorem Guarded.step (h : s.Guarded) {event : CallerEvent} (hown : s.OwnFailure event) :
    (s.step event).Guarded := by
  cases event with
  | allow caller now => exact h.allow caller now
  | recordSuccess caller =>
    exact { single := Nat.zero_le 1, stuck := fun hsome => absurd rfl hsome }
  | recordFailure caller now =>
    have hnone : s.trials.erase caller = [] := by
      rcases hown with hnone | hmem
      · rw [hnone]
        rfl
      · rcases List.length_eq_one_iff.mp
          (le_antisymm h.single (List.length_pos_of_mem hmem)) with ⟨trial, htrial⟩
        rw [htrial] at hmem ⊢
        rw [List.mem_singleton.mp hmem, List.erase_cons_head]
    refine { single := ?_, stuck := fun hsome => absurd hnone hsome }
    show (s.trials.erase caller).length ≤ 1
    rw [hnone]
    exact Nat.zero_le 1

/-- Between two successes at most one trial is in flight, as long as no other caller
reports a failure meanwhile. -/
theorem run_single_trial (policy : CircuitBreakerPolicy) (events : List CallerEvent)
    (hown : Along Callers.step OwnFailure (create policy) events) :
    Throughout Callers.step (fun s => s.trials.length ≤ 1) (create policy) events := by
  have hstart : (create policy).Guarded :=
    { single := Nat.zero_le 1, stuck := fun hsome => absurd rfl hsome }
  intro completed hle
  exact (throughout_of_along Guarded (fun _ _ h hown => h.step hown) hstart hown completed
    hle).single

theorem run_single_trial_of_own :
    Throughout Callers.step (fun s => s.trials.length ≤ 1) (create ⟨1, 10⟩)
      [.allow 1 0, .recordFailure 1 0, .allow 2 10, .recordFailure 2 11] :=
  run_single_trial _ _ ⟨trivial, Or.inl rfl, trivial, Or.inr (by decide +kernel), trivial⟩

/-- The second caller was let through before the breaker opened.  Its failure clears the
flag of the third, and the fourth becomes a second trial. -/
theorem stale_failure_second_trial :
    let events : List CallerEvent := [.allow 1 0, .allow 2 0, .recordFailure 1 0, .allow 3 10,
      .recordFailure 2 11, .allow 4 21]
    Along Callers.step (fun s event => s.admissible event = true) (create ⟨1, 10⟩) events ∧
      (run Callers.step (create ⟨1, 10⟩) events).trials = [4, 3] := by
  refine ⟨⟨?_, ?_, ?_, ?_, ?_, ?_, trivial⟩, ?_⟩ <;> decide +kernel

end Callers

end Network
end Membrane
