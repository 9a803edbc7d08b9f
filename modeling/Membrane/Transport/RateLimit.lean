import Mathlib.Tactic.Linarith
import Mathlib.Tactic.Ring
import Membrane.Foundation.Dict

/-!
# The rate limit

Every caller has a bucket of tokens that refills with time, and a request takes one token.
A bucket is brought up to date only when its caller makes a request.  When too many callers
are tracked, the buckets that have refilled completely are forgotten.

Times and tokens are exact rationals.
-/

namespace Membrane
namespace Transport

open Foundation

def maxTrackedCallers : Nat := 10000

structure RateLimiter where
  ratePerSec : ℚ
  burst : ℚ
  buckets : Dict String (ℚ × ℚ)

structure Arrival where
  key : String
  now : ℚ

namespace RateLimiter

def create (ratePerSec burst : ℚ) : RateLimiter :=
  { ratePerSec := ratePerSec, burst := burst, buckets := Dict.empty }

def tokensAt (l : RateLimiter) (key : String) (now : ℚ) : ℚ :=
  let held := l.buckets.getD key (l.burst, now)
  min l.burst (held.1 + (now - held.2) * l.ratePerSec)

/-- Take one token; the answer is the time until there is one, and zero if there is. -/
def takeToken (l : RateLimiter) (key : String) (now : ℚ) : ℚ × RateLimiter :=
  let tokens := l.tokensAt key now
  if 1 ≤ tokens then (0, { l with buckets := l.buckets.set key (tokens - 1, now) })
  else ((1 - tokens) / l.ratePerSec, { l with buckets := l.buckets.set key (tokens, now) })

def forgetIdle (l : RateLimiter) (now : ℚ) : RateLimiter :=
  { l with buckets :=
      l.buckets.filter (fun _ held => decide (now - held.2 < l.burst / l.ratePerSec)) }

def take (l : RateLimiter) (key : String) (now : ℚ) : ℚ × RateLimiter :=
  let taken := l.takeToken key now
  (taken.1,
    if maxTrackedCallers < taken.2.buckets.size then taken.2.forgetIdle now else taken.2)

def waits (take : RateLimiter -> String -> ℚ -> ℚ × RateLimiter) :
    RateLimiter -> List Arrival -> List ℚ
  | _, [] => []
  | l, arrival :: rest =>
    (take l arrival.key arrival.now).1 ::
      waits take (take l arrival.key arrival.now).2 rest

def allowed (key : String) (first last : ℚ) (arrivals : List Arrival) (answers : List ℚ) :
    Nat :=
  (arrivals.zip answers).countP (fun request =>
    decide (request.1.key = key ∧ first ≤ request.1.now ∧ request.1.now ≤ last ∧
      request.2 = 0))

/-!
# The level of a bucket
-/

def Sound (l : RateLimiter) (now : ℚ) : Prop :=
  forall key tokens last, l.buckets.get? key = some (tokens, last) ->
    0 ≤ tokens ∧ last ≤ now

variable {l : RateLimiter} {key : String} {now future : ℚ}

theorem create_sound (ratePerSec burst now : ℚ) : (create ratePerSec burst).Sound now := by
  intro key tokens last h
  cases h

theorem Sound.later (h : l.Sound now) (hlater : now ≤ future) : l.Sound future := by
  intro key tokens last hheld
  have hparts := h key tokens last hheld
  exact ⟨hparts.left, le_trans hparts.right hlater⟩

theorem tokensAt_of_none (h : l.buckets.get? key = none) (now : ℚ) :
    l.tokensAt key now = l.burst := by
  unfold tokensAt Dict.getD
  rw [h]
  simp

variable {last : ℚ} {arrivals : List Arrival}

theorem tokensAt_of_some {tokens : ℚ} (h : l.buckets.get? key = some (tokens, last)) (now : ℚ) :
    l.tokensAt key now = min l.burst (tokens + (now - last) * l.ratePerSec) := by
  unfold tokensAt Dict.getD
  rw [h]
  rfl

theorem tokensAt_le_burst (l : RateLimiter) (key : String) (now : ℚ) :
    l.tokensAt key now ≤ l.burst :=
  min_le_left _ _

section

variable (hrate : 0 < l.ratePerSec) (hburst : 0 ≤ l.burst) (hl : l.Sound now) (key : String)

include hrate hburst hl

theorem tokensAt_nonneg : 0 ≤ l.tokensAt key now := by
  cases hheld : l.buckets.get? key with
  | none =>
    rw [tokensAt_of_none hheld]
    exact hburst
  | some held =>
    have hparts := hl key held.1 held.2 hheld
    rw [tokensAt_of_some hheld]
    have hrefill : 0 ≤ (now - held.2) * l.ratePerSec :=
      mul_nonneg (sub_nonneg.mpr hparts.right) (le_of_lt hrate)
    exact le_min hburst (add_nonneg hparts.left hrefill)

theorem tokensAt_add_nonneg (hlast : now ≤ last) :
    0 ≤ l.tokensAt key now + (last - now) * l.ratePerSec :=
  add_nonneg (tokensAt_nonneg hrate hburst hl key)
    (mul_nonneg (sub_nonneg.mpr hlast) (le_of_lt hrate))

end

theorem tokensAt_later (hrate : 0 < l.ratePerSec) (hlater : now ≤ future) (key : String) :
    l.tokensAt key future ≤ l.tokensAt key now + (future - now) * l.ratePerSec := by
  have hrefill : 0 ≤ (future - now) * l.ratePerSec :=
    mul_nonneg (sub_nonneg.mpr hlater) (le_of_lt hrate)
  cases hheld : l.buckets.get? key with
  | none =>
    rw [tokensAt_of_none hheld, tokensAt_of_none hheld]
    linarith
  | some held =>
    rw [tokensAt_of_some hheld, tokensAt_of_some hheld]
    rcases min_choice l.burst (held.1 + (now - held.2) * l.ratePerSec) with hfull | hpart
    · exact le_trans (min_le_left _ _) (by linarith)
    · rw [hpart]
      refine le_trans (min_le_right _ _) (le_of_eq ?_)
      ring

/-!
# Taking a token
-/

def left (l : RateLimiter) (key : String) (now : ℚ) : ℚ :=
  if 1 ≤ l.tokensAt key now then l.tokensAt key now - 1 else l.tokensAt key now

section

variable (l : RateLimiter) (key : String) (now : ℚ)

theorem takeToken_limiter :
    (l.takeToken key now).2 =
      { l with buckets := l.buckets.set key (l.left key now, now) } := by
  unfold takeToken left
  simp only
  split_ifs
  · rfl
  · rfl

theorem takeToken_ratePerSec :
    (l.takeToken key now).2.ratePerSec = l.ratePerSec := by
  rw [takeToken_limiter]

theorem takeToken_burst :
    (l.takeToken key now).2.burst = l.burst := by
  rw [takeToken_limiter]

theorem takeToken_get? :
    (l.takeToken key now).2.buckets.get? key = some (l.left key now, now) := by
  rw [takeToken_limiter, Dict.get?_set_self]

theorem left_le : l.left key now ≤ l.burst := by
  have hfull := l.tokensAt_le_burst key now
  unfold left
  split_ifs
  · linarith
  · exact hfull

end

section

variable (hrate : 0 < l.ratePerSec) (hburst : 0 ≤ l.burst) (hl : l.Sound now) (key : String)

include hrate hburst hl

theorem left_nonneg : 0 ≤ l.left key now := by
  have hnonneg := tokensAt_nonneg hrate hburst hl key
  unfold left
  split_ifs with hone
  · linarith
  · exact hnonneg

theorem takeToken_sound : (l.takeToken key now).2.Sound now := by
  intro other tokens last hheld
  rw [takeToken_limiter, Dict.get?_set] at hheld
  split_ifs at hheld with hkey
  · cases hheld
    exact ⟨left_nonneg hrate hburst hl key, le_refl now⟩
  · exact hl other tokens last hheld

end

theorem tokensAt_takeToken_self (l : RateLimiter) (key : String) (now : ℚ) :
    (l.takeToken key now).2.tokensAt key now = l.left key now := by
  rw [tokensAt_of_some (l.takeToken_get? key now), takeToken_burst, sub_self, zero_mul,
    add_zero]
  exact min_eq_right (l.left_le key now)

theorem tokensAt_takeToken_of_ne {other : String} (h : other ≠ key) (now future : ℚ) :
    (l.takeToken key now).2.tokensAt other future = l.tokensAt other future := by
  unfold tokensAt Dict.getD
  rw [takeToken_limiter, Dict.get?_set_of_ne _ _ h]

theorem takeToken_wait_eq_zero_iff (hrate : 0 < l.ratePerSec) (key : String) (now : ℚ) :
    (l.takeToken key now).1 = 0 <-> 1 ≤ l.tokensAt key now := by
  unfold takeToken
  simp only
  split_ifs with hone
  · exact ⟨fun _ => hone, fun _ => rfl⟩
  · refine ⟨fun h => absurd h (ne_of_gt ?_), fun h => absurd h hone⟩
    exact div_pos (by linarith) hrate

/-!
# The number of requests allowed
-/

theorem allowed_cons (key : String) (first last : ℚ) (arrival : Arrival)
    (rest : List Arrival) (answer : ℚ) (answers : List ℚ) :
    allowed key first last (arrival :: rest) (answer :: answers) =
      allowed key first last rest answers +
        if arrival.key = key ∧ first ≤ arrival.now ∧ arrival.now ≤ last ∧ answer = 0 then 1
        else 0 := by
  unfold allowed
  rw [List.zip_cons_cons, List.countP_cons]
  simp only [decide_eq_true_eq]

theorem now_le_of_mem {arrival other : Arrival} {rest : List Arrival}
    (htimes : (arrival :: rest).Pairwise (fun a b => a.now ≤ b.now))
    (h : other ∈ arrival :: rest) : arrival.now ≤ other.now := by
  rcases List.mem_cons.mp h with heq | hrest
  · rw [heq]
  · exact (List.pairwise_cons.mp htimes).left other hrest

theorem allowed_eq_zero (key : String) (first : ℚ) {arrival : Arrival} {rest : List Arrival}
    (hlate : last < arrival.now)
    (htimes : (arrival :: rest).Pairwise (fun a b => a.now ≤ b.now)) (answers : List ℚ) :
    allowed key first last (arrival :: rest) answers = 0 := by
  unfold allowed
  rw [List.countP_eq_zero]
  intro request hrequest hcounted
  have hfrom := now_le_of_mem htimes (List.of_mem_zip hrequest).left
  have hearly := (of_decide_eq_true hcounted).right.right.left
  exact absurd (hfrom.trans hearly) (not_le_of_gt hlate)

section

variable (hrate : 0 < l.ratePerSec)

include hrate

theorem tokensAt_takeToken_add_le (key first last : _) (arrival : Arrival) :
    (l.takeToken arrival.key arrival.now).2.tokensAt key arrival.now +
        (if arrival.key = key ∧ first ≤ arrival.now ∧ arrival.now ≤ last ∧
            (l.takeToken arrival.key arrival.now).1 = 0 then (1 : ℚ) else 0) ≤
      l.tokensAt key arrival.now := by
  by_cases hkey : arrival.key = key
  · subst hkey
    have hzero := takeToken_wait_eq_zero_iff hrate arrival.key arrival.now
    rw [tokensAt_takeToken_self]
    unfold left
    split_ifs with hone hcounted hcounted
    · linarith
    · linarith
    · exact absurd (hzero.mp hcounted.right.right.right) hone
    · linarith
  · rw [tokensAt_takeToken_of_ne (Ne.symm hkey), if_neg (fun h => hkey h.left), add_zero]

/-- From any time on a caller is allowed as many requests as there are tokens, and as many
more as flow in. -/
theorem allowed_le_tokens (hburst : 0 ≤ l.burst) (hl : l.Sound now) (key : String) (first : ℚ)
    (hlast : now ≤ last) (htimes : arrivals.Pairwise (fun a b => a.now ≤ b.now))
    (hstart : forall arrival, arrival ∈ arrivals -> now ≤ arrival.now) :
    (allowed key first last arrivals (waits takeToken l arrivals) : ℚ) ≤
      l.tokensAt key now + (last - now) * l.ratePerSec := by
  induction arrivals generalizing l now with
  | nil =>
    exact tokensAt_add_nonneg hrate hburst hl key hlast
  | cons arrival rest ih =>
    have hnow : now ≤ arrival.now := hstart arrival List.mem_cons_self
    have hparts := List.pairwise_cons.mp htimes
    have hflow := tokensAt_later hrate hnow key
    by_cases hlate : last < arrival.now
    · rw [allowed_eq_zero key first hlate htimes]
      exact tokensAt_add_nonneg hrate hburst hl key hlast
    · have hsound := takeToken_sound hrate hburst (hl.later hnow) arrival.key
      have hstep := tokensAt_takeToken_add_le hrate key first last arrival (l := l)
      have hrest := ih (by rw [takeToken_ratePerSec]; exact hrate)
        (by rw [takeToken_burst]; exact hburst) hsound (not_lt.mp hlate) hparts.right
        hparts.left
      rw [takeToken_ratePerSec] at hrest
      rw [waits, allowed_cons, Nat.cast_add, Nat.cast_ite, Nat.cast_one, Nat.cast_zero]
      linarith

theorem allowed_le (hburst : 0 ≤ l.burst) (hl : l.Sound now) (key : String) {first : ℚ}
    (hlast : first ≤ last) (htimes : arrivals.Pairwise (fun a b => a.now ≤ b.now))
    (hstart : forall arrival, arrival ∈ arrivals -> now ≤ arrival.now) :
    (allowed key first last arrivals (waits takeToken l arrivals) : ℚ) ≤
      l.burst + l.ratePerSec * (last - first) := by
  have hwindow : 0 ≤ l.ratePerSec * (last - first) :=
    mul_nonneg (le_of_lt hrate) (sub_nonneg.mpr hlast)
  induction arrivals generalizing l now with
  | nil =>
    exact add_nonneg hburst hwindow
  | cons arrival rest ih =>
    have hnow : now ≤ arrival.now := hstart arrival List.mem_cons_self
    have hparts := List.pairwise_cons.mp htimes
    by_cases hearly : arrival.now < first
    · have hsound := takeToken_sound hrate hburst (hl.later hnow) arrival.key
      have hrest := ih (by rw [takeToken_ratePerSec]; exact hrate)
        (by rw [takeToken_burst]; exact hburst) hsound hparts.right hparts.left
        (by rw [takeToken_ratePerSec]; exact hwindow)
      rw [takeToken_ratePerSec, takeToken_burst] at hrest
      rw [waits, allowed_cons, if_neg (fun h => absurd h.right.left (not_le_of_gt hearly))]
      exact hrest
    · by_cases hlate : last < arrival.now
      · rw [allowed_eq_zero key first hlate htimes]
        exact add_nonneg hburst hwindow
      · have htokens := allowed_le_tokens hrate hburst (hl.later hnow) key first
          (not_lt.mp hlate) htimes (fun _ => now_le_of_mem htimes)
        have hfull := l.tokensAt_le_burst key arrival.now
        have hshorter : (last - arrival.now) * l.ratePerSec ≤
            l.ratePerSec * (last - first) := by
          rw [mul_comm]
          exact mul_le_mul_of_nonneg_left (by linarith) (le_of_lt hrate)
        linarith

/-!
# Forgetting
-/

theorem tokensAt_forgetIdle (hl : l.Sound now) (hfuture : now ≤ future) (key : String) :
    (l.forgetIdle now).tokensAt key future = l.tokensAt key future := by
  cases hheld : l.buckets.get? key with
  | none =>
    have hnone : (l.forgetIdle now).buckets.get? key = none := by
      rw [Option.eq_none_iff_forall_ne_some]
      intro held hsome
      have hkept := ((l.buckets.get?_filter_eq_some_iff _ key held).mp hsome).left
      rw [hheld] at hkept
      cases hkept
    rw [tokensAt_of_none hheld, tokensAt_of_none hnone]
    rfl
  | some held =>
    have hnonneg := (hl key held.1 held.2 hheld).left
    by_cases hidle : now - held.2 < l.burst / l.ratePerSec
    · have hsome : (l.forgetIdle now).buckets.get? key = some held :=
        (l.buckets.get?_filter_eq_some_iff _ key held).mpr
          ⟨hheld, decide_eq_true hidle⟩
      rw [tokensAt_of_some hheld, tokensAt_of_some hsome]
      rfl
    · have hnone : (l.forgetIdle now).buckets.get? key = none := by
        rw [Option.eq_none_iff_forall_ne_some]
        intro other hsome
        have hparts := (l.buckets.get?_filter_eq_some_iff _ key other).mp hsome
        rw [hheld] at hparts
        cases hparts.left
        exact hidle (of_decide_eq_true hparts.right)
      have hrefilled : l.burst ≤ (future - held.2) * l.ratePerSec := by
        have hwaited : l.burst / l.ratePerSec ≤ future - held.2 := by linarith
        exact (div_le_iff₀ hrate).mp hwaited
      rw [tokensAt_of_some hheld, tokensAt_of_none hnone]
      show l.burst = min l.burst _
      exact (min_eq_left (by linarith)).symm

end

theorem forgetIdle_sound (hl : l.Sound now) : (l.forgetIdle now).Sound now := by
  intro key tokens last hheld
  exact hl key tokens last ((l.buckets.get?_filter_eq_some_iff _ key _).mp hheld).left

structure Alike (l m : RateLimiter) (now : ℚ) : Prop where
  ratePerSec : l.ratePerSec = m.ratePerSec
  burst : l.burst = m.burst
  tokensAt : forall key future, now ≤ future -> l.tokensAt key future = m.tokensAt key future

variable {m : RateLimiter}

theorem Alike.takeToken (h : Alike l m now) (hfuture : now ≤ future) (key : String) :
    (l.takeToken key future).1 = (m.takeToken key future).1 ∧
      Alike (l.takeToken key future).2 (m.takeToken key future).2 future := by
  have hlevel := h.tokensAt key future hfuture
  have hleft : l.left key future = m.left key future := by
    unfold left
    rw [hlevel]
  constructor
  · unfold RateLimiter.takeToken
    simp only [hlevel, h.ratePerSec]
    split_ifs
    · rfl
    · rfl
  · refine ⟨?_, ?_, ?_⟩
    · rw [takeToken_ratePerSec, takeToken_ratePerSec]
      exact h.ratePerSec
    · rw [takeToken_burst, takeToken_burst]
      exact h.burst
    · intro other time htime
      by_cases hother : other = key
      · rw [hother]
        rw [tokensAt_of_some (l.takeToken_get? key future),
          tokensAt_of_some (m.takeToken_get? key future), hleft, takeToken_burst,
          takeToken_burst, takeToken_ratePerSec, takeToken_ratePerSec, h.burst, h.ratePerSec]
      · rw [tokensAt_takeToken_of_ne hother, tokensAt_takeToken_of_ne hother]
        exact h.tokensAt other time (le_trans hfuture htime)

theorem Alike.take (h : Alike l m now) (hrate : 0 < l.ratePerSec) (hburst : 0 ≤ l.burst)
    (hl : l.Sound now) (hfuture : now ≤ future) (key : String) :
    (l.take key future).1 = (m.takeToken key future).1 ∧
      Alike (l.take key future).2 (m.takeToken key future).2 future ∧
      (l.take key future).2.Sound future := by
  have hsound := takeToken_sound hrate hburst (hl.later hfuture) key
  have htaken := h.takeToken hfuture key
  refine ⟨htaken.left, ?_⟩
  unfold RateLimiter.take
  simp only
  split_ifs
  · refine ⟨⟨htaken.right.ratePerSec, htaken.right.burst, ?_⟩, forgetIdle_sound hsound⟩
    intro other time htime
    rw [tokensAt_forgetIdle (by rw [takeToken_ratePerSec]; exact hrate) hsound htime]
    exact htaken.right.tokensAt other time htime
  · exact ⟨htaken.right, hsound⟩

theorem waits_take_eq (h : Alike l m now) (hrate : 0 < l.ratePerSec) (hburst : 0 ≤ l.burst)
    (hl : l.Sound now) (htimes : arrivals.Pairwise (fun a b => a.now ≤ b.now))
    (hstart : forall arrival, arrival ∈ arrivals -> now ≤ arrival.now) :
    waits RateLimiter.take l arrivals = waits RateLimiter.takeToken m arrivals := by
  induction arrivals generalizing l m now with
  | nil => rfl
  | cons arrival rest ih =>
    have hparts := List.pairwise_cons.mp htimes
    rcases h.take hrate hburst hl (hstart arrival List.mem_cons_self) arrival.key with
      ⟨hanswer, halike, hsound⟩
    rw [waits, waits, hanswer]
    congr 1
    apply ih halike ?_ ?_ hsound hparts.right hparts.left
    · rw [halike.ratePerSec, takeToken_ratePerSec, ← h.ratePerSec]
      exact hrate
    · rw [halike.burst, takeToken_burst, ← h.burst]
      exact hburst

/-- In every interval a caller is allowed at most a burst and what flows in meanwhile, and
no request is answered otherwise because buckets were forgotten. -/
theorem take_tokenBucket {ratePerSec burst : ℚ} (hrate : 0 < ratePerSec) (hburst : 0 ≤ burst)
    {arrivals : List Arrival} (htimes : arrivals.Pairwise (fun a b => a.now ≤ b.now)) :
    (forall (key : String) (first length : ℚ), 0 ≤ length ->
      (allowed key first (first + length) arrivals
          (waits RateLimiter.take (create ratePerSec burst) arrivals) : ℚ) ≤
        burst + ratePerSec * length) ∧
    waits RateLimiter.take (create ratePerSec burst) arrivals =
      waits RateLimiter.takeToken (create ratePerSec burst) arrivals := by
  cases arrivals with
  | nil =>
    refine ⟨fun key first length hlength => ?_, rfl⟩
    exact add_nonneg hburst (mul_nonneg (le_of_lt hrate) hlength)
  | cons arrival rest =>
    have hsound := create_sound ratePerSec burst arrival.now
    have hstart : forall other, other ∈ arrival :: rest -> arrival.now ≤ other.now :=
      fun _ => now_le_of_mem htimes
    have halike : Alike (create ratePerSec burst) (create ratePerSec burst) arrival.now :=
      ⟨rfl, rfl, fun _ _ _ => rfl⟩
    have hanswers := waits_take_eq halike hrate hburst hsound htimes hstart
    refine ⟨fun key first length hlength => ?_, hanswers⟩
    have hcount := allowed_le hrate hburst hsound key
      (le_add_of_nonneg_right hlength : first ≤ first + length) htimes hstart
    rw [add_sub_cancel_left] at hcount
    rw [hanswers]
    exact hcount

/-- Three requests in half a second, with one token for each second and a burst of two. -/
theorem threeRequests_limited :
    (allowed "k" 0 (0 + 1 / 2) [⟨"k", 0⟩, ⟨"k", 0⟩, ⟨"k", 1 / 2⟩]
      (waits RateLimiter.take (create 1 2) [⟨"k", 0⟩, ⟨"k", 0⟩, ⟨"k", 1 / 2⟩]) : ℚ) ≤
        2 + 1 * (1 / 2) :=
  (take_tokenBucket (by norm_num) (by norm_num) (by decide +kernel)).left "k" 0 (1 / 2)
    (by norm_num)

/-!
# Waiting as told
-/

def after (l : RateLimiter) (arrivals : List Arrival) : RateLimiter :=
  arrivals.foldl (fun l arrival => (l.take arrival.key arrival.now).2) l

section

variable (hrate : 0 < l.ratePerSec) (hburst : 1 ≤ l.burst) (hl : l.Sound now)

include hrate hburst hl

theorem take_kept (hfuture : now ≤ future) (key : String) :
    (l.take key future).2.Sound future ∧ (l.take key future).2.ratePerSec = l.ratePerSec ∧
      (l.take key future).2.burst = l.burst ∧
      forall other time, future ≤ time -> (l.take key future).2.tokensAt other time =
        (l.takeToken key future).2.tokensAt other time := by
  have halike : Alike l l now := ⟨rfl, rfl, fun _ _ _ => rfl⟩
  rcases halike.take hrate (zero_le_one.trans hburst) hl hfuture key with ⟨_, htaken, hsound⟩
  refine ⟨hsound, ?_, ?_, htaken.tokensAt⟩
  · rw [htaken.ratePerSec, takeToken_ratePerSec]
  · rw [htaken.burst, takeToken_burst]

theorem after_of_others (htimes : arrivals.Pairwise (fun a b => a.now ≤ b.now))
    (hothers : forall arrival, arrival ∈ arrivals ->
      arrival.key ≠ key ∧ now ≤ arrival.now ∧ arrival.now ≤ future) :
    (l.after arrivals).ratePerSec = l.ratePerSec ∧
      (l.after arrivals).tokensAt key future = l.tokensAt key future := by
  induction arrivals generalizing l now with
  | nil => exact ⟨rfl, rfl⟩
  | cons arrival rest ih =>
    rcases hothers arrival List.mem_cons_self with ⟨hkey, hpast, hfuture⟩
    rcases take_kept hrate hburst hl hpast arrival.key with ⟨hsound, hsame, hcap, htokens⟩
    have hrest := ih (hsame ▸ hrate) (hcap ▸ hburst) hsound htimes.of_cons
      (fun other hother => ⟨(hothers other (List.mem_cons_of_mem _ hother)).left,
        List.rel_of_pairwise_cons htimes hother,
        (hothers other (List.mem_cons_of_mem _ hother)).right.right⟩)
    refine ⟨hrest.left.trans hsame, hrest.right.trans ?_⟩
    rw [htokens key future hfuture, tokensAt_takeToken_of_ne hkey.symm]

theorem retry_admitted (hrefused : (l.take key now).1 ≠ 0)
    (htimes : arrivals.Pairwise (fun a b => a.now ≤ b.now))
    (hothers : forall arrival, arrival ∈ arrivals ->
      arrival.key ≠ key ∧ now ≤ arrival.now ∧ arrival.now ≤ future)
    (hwaited : now + (l.take key now).1 ≤ future) :
    (((l.take key now).2.after arrivals).take key future).1 = 0 := by
  have hfew : ¬ 1 ≤ l.tokensAt key now :=
    fun hone => hrefused ((takeToken_wait_eq_zero_iff hrate key now).mpr hone)
  have hwait : (l.take key now).1 = (1 - l.tokensAt key now) / l.ratePerSec :=
    congrArg Prod.fst (if_neg hfew)
  have hflown : (1 - l.tokensAt key now) / l.ratePerSec ≤ future - now := by linarith
  have hlater : now ≤ future :=
    sub_nonneg.mp ((div_pos (by linarith) hrate).le.trans hflown)
  rcases take_kept hrate hburst hl le_rfl key with ⟨hsound, hsame, hcap, htokens⟩
  rcases after_of_others (hsame ▸ hrate) (hcap ▸ hburst) hsound htimes hothers with
    ⟨hkept, hothers⟩
  apply (takeToken_wait_eq_zero_iff (by rw [hkept, hsame]; exact hrate) key future).mpr
  rw [hothers, htokens key future hlater, tokensAt_of_some (l.takeToken_get? key now),
    takeToken_burst, takeToken_ratePerSec, left, if_neg hfew]
  refine le_min hburst ?_
  have := (div_le_iff₀ hrate).mp hflown
  linarith

end

theorem secondRequest_admitted :
    (((((create 1 1).take "k" 0).2.take "k" 0).2.after [⟨"j", 1 / 2⟩]).take "k" 1).1 = 0 :=
  retry_admitted (by decide +kernel) (by decide +kernel)
    (take_kept (by decide) (by decide) (create_sound 1 1 0) le_rfl "k").left
    (by decide +kernel) (List.pairwise_singleton _ _) (by decide +kernel) (by decide +kernel)

end RateLimiter

end Transport
end Membrane
