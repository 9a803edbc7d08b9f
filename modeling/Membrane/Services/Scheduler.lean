import Mathlib.Data.Rat.Floor
import Membrane.Foundation.Transition

/-!
# The routing threshold

While the egress link is congested the effective threshold rises by a tenth with every
adjustment, up to a cap.  Calm adjustments let it fall back to the configured threshold
by a hundredth each.
-/

namespace Membrane
namespace Services

open Foundation

def maxEffectiveThresholdTokens : Int := 131072

def thresholdRaiseMultiplier : ℚ := 11 / 10

def thresholdRelaxMultiplier : ℚ := 99 / 100

def truncate (x : ℚ) : Int :=
  if 0 ≤ x then ⌊x⌋ else ⌈x⌉

structure EgressMonitor where
  windowSize : Nat
  history : List ℚ

/-- The oldest samples leave a full window. -/
def EgressMonitor.record (m : EgressMonitor) (utilization : ℚ) : EgressMonitor :=
  { m with
    history := (m.history ++ [utilization]).drop (m.history.length + 1 - m.windowSize) }

def EgressMonitor.average (m : EgressMonitor) : ℚ :=
  if m.history = [] then 0 else m.history.sum / m.history.length

structure SchedulerState where
  threshold : Int
  monitor : EgressMonitor
  effectiveThreshold : Int

def SchedulerState.postInit (s : SchedulerState) : SchedulerState :=
  if s.effectiveThreshold = 0 then { s with effectiveThreshold := s.threshold } else s

structure DualTimescaleScheduler where
  state : SchedulerState
  congestionThreshold : ℚ

namespace DualTimescaleScheduler

def Congested (d : DualTimescaleScheduler) (currentQueueDepth maxQueueDepth : Int) : Prop :=
  d.congestionThreshold ≤ d.state.monitor.average ∨
    1 ≤ (if 0 < maxQueueDepth then (currentQueueDepth : ℚ) / maxQueueDepth else 0)

instance (d : DualTimescaleScheduler) (currentQueueDepth maxQueueDepth : Int) :
    Decidable (d.Congested currentQueueDepth maxQueueDepth) :=
  inferInstanceAs (Decidable (_ ∨ _))

def withEffective (d : DualTimescaleScheduler) (tokens : Int) : DualTimescaleScheduler :=
  { d with state := { d.state with effectiveThreshold := tokens } }

def shortTermAdjust (d : DualTimescaleScheduler) (currentQueueDepth maxQueueDepth : Int) :
    Int × DualTimescaleScheduler :=
  let effective := d.state.effectiveThreshold
  let adjusted :=
    if d.Congested currentQueueDepth maxQueueDepth then
      min (truncate (effective * thresholdRaiseMultiplier)) maxEffectiveThresholdTokens
    else if d.state.threshold < effective then
      max (truncate (effective * thresholdRelaxMultiplier)) d.state.threshold
    else effective
  (adjusted, d.withEffective adjusted)

inductive SchedulerCall where
  | record (utilization : ℚ)
  | adjust (currentQueueDepth maxQueueDepth : Int)

def step (d : DualTimescaleScheduler) : SchedulerCall -> DualTimescaleScheduler
  | .record utilization =>
    { d with state := { d.state with monitor := d.state.monitor.record utilization } }
  | .adjust currentQueueDepth maxQueueDepth =>
    (d.shortTermAdjust currentQueueDepth maxQueueDepth).2

def start (threshold : Int) (monitor : EgressMonitor) (congestionThreshold : ℚ) :
    DualTimescaleScheduler :=
  { state := SchedulerState.postInit
      { threshold := threshold, monitor := monitor, effectiveThreshold := 0 }
    congestionThreshold := congestionThreshold }

def CalmAdjust (d : DualTimescaleScheduler) : SchedulerCall -> Prop
  | .record _ => False
  | .adjust currentQueueDepth maxQueueDepth => ¬ d.Congested currentQueueDepth maxQueueDepth

/-!
# One adjustment
-/

theorem lt_truncate_raise {tokens : Int} (h : 10 ≤ tokens) :
    tokens < truncate (tokens * thresholdRaiseMultiplier) := by
  have hcast : (10 : ℚ) ≤ tokens := by exact_mod_cast h
  unfold truncate thresholdRaiseMultiplier
  rw [if_pos (by linarith), Int.lt_iff_add_one_le, Int.le_floor]
  push_cast
  linarith

theorem truncate_relax_lt {tokens : Int} (h : 0 < tokens) :
    truncate (tokens * thresholdRelaxMultiplier) < tokens := by
  have hcast : (0 : ℚ) < tokens := by exact_mod_cast h
  unfold truncate thresholdRelaxMultiplier
  rw [if_pos (by linarith), Int.floor_lt]
  linarith

structure Bounded (t : Int) (d : DualTimescaleScheduler) : Prop where
  base : d.state.threshold = t
  low : t ≤ d.state.effectiveThreshold
  high : d.state.effectiveThreshold ≤ maxEffectiveThresholdTokens

variable {t : Int} {d : DualTimescaleScheduler} {currentQueueDepth maxQueueDepth : Int}

theorem shortTermAdjust_of_congested (h : d.Congested currentQueueDepth maxQueueDepth) :
    (d.shortTermAdjust currentQueueDepth maxQueueDepth).1 =
      min (truncate (d.state.effectiveThreshold * thresholdRaiseMultiplier))
        maxEffectiveThresholdTokens :=
  if_pos h

section

variable (hd : Bounded t d) (ht : 10 ≤ t)

include hd ht

theorem Bounded.lt_shortTermAdjust (h : d.Congested currentQueueDepth maxQueueDepth)
    (hbelow : d.state.effectiveThreshold < maxEffectiveThresholdTokens) :
    d.state.effectiveThreshold < (d.shortTermAdjust currentQueueDepth maxQueueDepth).1 := by
  rw [shortTermAdjust_of_congested h]
  exact lt_min (lt_truncate_raise (le_trans ht hd.low)) hbelow

theorem Bounded.shortTermAdjust_of_calm (h : ¬ d.Congested currentQueueDepth maxQueueDepth) :
    t ≤ (d.shortTermAdjust currentQueueDepth maxQueueDepth).1 ∧
      (d.shortTermAdjust currentQueueDepth maxQueueDepth).1 ≤
        max t (d.state.effectiveThreshold - 1) := by
  have hlow := hd.low
  unfold shortTermAdjust
  simp only
  rw [if_neg h, hd.base]
  split_ifs with habove
  · have hpos : 0 < d.state.effectiveThreshold := by omega
    have hless := truncate_relax_lt hpos
    omega
  · omega

theorem Bounded.step (call : SchedulerCall) : Bounded t (d.step call) := by
  cases call with
  | record utilization => exact ⟨hd.base, hd.low, hd.high⟩
  | adjust currentQueueDepth maxQueueDepth =>
    have hlow := hd.low
    have hhigh := hd.high
    by_cases h : d.Congested currentQueueDepth maxQueueDepth
    · have hadjusted := shortTermAdjust_of_congested h
      have hraise := lt_truncate_raise (le_trans ht hlow)
      exact ⟨hd.base, show t ≤ (d.shortTermAdjust _ _).1 by omega,
        show (d.shortTermAdjust _ _).1 ≤ _ by omega⟩
    · have hcalm := hd.shortTermAdjust_of_calm ht h
      exact ⟨hd.base, hcalm.left, show (d.shortTermAdjust _ _).1 ≤ _ by omega⟩

end

/-!
# Runs
-/

theorem bounded_run (ht : 10 ≤ t) (hcap : t ≤ maxEffectiveThresholdTokens)
    (monitor : EgressMonitor) (congestionThreshold : ℚ) (calls : List SchedulerCall) :
    Bounded t (run step (start t monitor congestionThreshold) calls) := by
  have hstart : Bounded t (start t monitor congestionThreshold) :=
    ⟨rfl, le_refl t, hcap⟩
  exact throughout_of_step (Bounded t) (fun _ call hd => hd.step ht call) hstart calls calls
    (List.prefix_refl calls)

theorem Bounded.run_calm (hd : Bounded t d) (ht : 10 ≤ t) {calls : List SchedulerCall}
    (hcalm : Along DualTimescaleScheduler.step CalmAdjust d calls)
    (henough : d.state.effectiveThreshold - t ≤ calls.length) :
    (run DualTimescaleScheduler.step d calls).state.effectiveThreshold = t := by
  induction calls generalizing d with
  | nil =>
    have hlow := hd.low
    simp only [List.length_nil] at henough
    show d.state.effectiveThreshold = t
    omega
  | cons call rest ih =>
    cases call with
    | record utilization => exact hcalm.left.elim
    | adjust currentQueueDepth maxQueueDepth =>
      have hfall := hd.shortTermAdjust_of_calm ht hcalm.left
      refine ih (hd.step ht _) hcalm.right ?_
      rw [List.length_cons] at henough
      show (d.shortTermAdjust _ _).1 - t ≤ _
      push_cast at henough
      omega

/-- The threshold stays between its base and the cap, congestion raises it below the cap,
and enough calm adjustments in a row bring it back to the base and leave it there. -/
theorem effectiveThreshold_stable (t : Int) (ht : 10 ≤ t)
    (hcap : t ≤ maxEffectiveThresholdTokens) (monitor : EgressMonitor)
    (congestionThreshold : ℚ) (calls : List SchedulerCall) :
    let d := run step (start t monitor congestionThreshold) calls
    (t ≤ d.state.effectiveThreshold ∧
      d.state.effectiveThreshold ≤ maxEffectiveThresholdTokens) ∧
    (forall currentQueueDepth maxQueueDepth, d.Congested currentQueueDepth maxQueueDepth ->
      d.state.effectiveThreshold < maxEffectiveThresholdTokens ->
        d.state.effectiveThreshold <
          (d.shortTermAdjust currentQueueDepth maxQueueDepth).1) ∧
    exists enough, forall calm, Along step CalmAdjust d calm -> enough ≤ calm.length ->
      (run step d calm).state.effectiveThreshold = t := by
  intro d
  have hd : Bounded t d := bounded_run ht hcap monitor congestionThreshold calls
  refine ⟨⟨hd.low, hd.high⟩, fun _ _ h hbelow => hd.lt_shortTermAdjust ht h hbelow, ?_⟩
  exists (d.state.effectiveThreshold - t).toNat
  intro calm hcalm henough
  exact hd.run_calm ht hcalm (by omega)

theorem effectiveThreshold_stable_ten :
    let d := run step (start 10 ⟨100, []⟩ (85 / 100)) [.record 1, .adjust 0 50]
    d.state.effectiveThreshold = 11 ∧ 10 ≤ d.state.effectiveThreshold := by
  have h := effectiveThreshold_stable 10 (by decide) (by decide) ⟨100, []⟩ (85 / 100)
    [.record 1, .adjust 0 50]
  exact ⟨by decide +kernel, h.left.left⟩

end DualTimescaleScheduler

end Services
end Membrane
