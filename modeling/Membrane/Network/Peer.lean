import Membrane.Network.HttpTransport
import Membrane.Network.Resilience

/-!
# Calls to a peer

A call asks the breaker of the peer, sends a request, and sends it again after a delay
as long as the transport fails and the deadline of the caller allows it.  An exception
that is not a network error ends the call at once, without a report to the breaker.

The transport, the clock and the random numbers are parameters of each call.
-/

namespace Membrane
namespace Network

open Foundation Store

class Tracing where
  inject : Dict String String -> Dict String String

structure Peer where
  baseUrl : String
  timeoutSec : ℚ
  maxRetries : Int
  localPeerCn : String
  bearerToken : String
  retry : RetryPolicy
  breaker : CircuitBreaker

structure Surroundings (rho : Type) where
  allowTime : ℚ
  deadline : Option ℚ
  attemptTime : Nat -> ℚ
  answer : Nat -> OutboundRequest -> Except TransportError (Option rho)
  random : Nat -> ℚ
  retryTime : Nat -> ℚ
  failureTime : ℚ

def Surroundings.OnlyNetworkErrors {rho : Type} (x : Surroundings rho) : Prop :=
  forall attempt request e, x.answer attempt request = .error e ->
    exists cause, e = .network cause

inductive Ended (rho : Type) where
  | returned (value : Option rho)
  | raised (e : TransportError)
  | exhausted

/-- What a call returned and sent, the failure it recorded, and the breaker it leaves. -/
structure Called (rho : Type) where
  result : Except TransportError (Option rho)
  reached : List OutboundRequest
  failedAt : Option ℚ
  breaker : CircuitBreaker

namespace Peer

variable {rho json : Type} (p : Peer)

def create (baseUrl : String) (timeoutSec : ℚ) (maxRetries : Int) (retryDelaySec : ℚ)
    (localPeerCn bearerToken : String) (policy : CircuitBreakerPolicy) : Peer where
  baseUrl := baseUrl
  timeoutSec := timeoutSec
  maxRetries := maxRetries
  localPeerCn := localPeerCn
  bearerToken := bearerToken
  retry :=
    { maxAttempts := maxRetries
      baseDelay := retryDelaySec
      maxDelay := max (retryDelaySec * 8) 0 }
  breaker := CircuitBreaker.create policy

def baseHeaders : Dict String String :=
  let agent := (Dict.empty : Dict String String).set "User-Agent" "membrane-peer/2.0"
  let named :=
    if p.localPeerCn = "" then agent else agent.set "X-Local-Peer-CN" p.localPeerCn
  if p.bearerToken = "" then named
  else named.set "Authorization" ("Bearer " ++ p.bearerToken)

def updated (headers : Dict String String) (others : Option (Dict String String)) :
    Dict String String :=
  (others.getD Dict.empty).entries.foldl (fun all entry => all.set entry.1 entry.2) headers

/-!
# Attempts
-/

def attemptTimeout (x : Surroundings rho) (attempt : Nat) : Option ℚ :=
  match x.deadline with
  | none => some p.timeoutSec
  | some deadline =>
    let remaining := deadline - x.attemptTime attempt
    if remaining ≤ 0 then none else some (min p.timeoutSec remaining)

def givesUp (x : Surroundings rho) (attempt : Nat) : Bool :=
  match x.deadline with
  | none => false
  | some deadline =>
    decide (deadline ≤
      x.retryTime attempt + computeBackoff p.retry attempt (x.random attempt))

/-- The first number counts the attempts that are left, the second one those that were made. -/
def attempts (x : Surroundings rho) (request : ℚ -> OutboundRequest) :
    Nat -> Nat -> Ended rho × List OutboundRequest
  | 0, _ => (.exhausted, [])
  | left + 1, attempt =>
    match p.attemptTimeout x attempt with
    | none => (.exhausted, [])
    | some timeout =>
      let retry : Ended rho × List OutboundRequest :=
        if left = 0 then (.exhausted, [])
        else if p.givesUp x attempt then (.exhausted, [])
        else attempts x request left (attempt + 1)
      match x.answer attempt (request timeout) with
      | .ok (some value) => (.returned (some value), [request timeout])
      | .ok none | .error (.network _) => (retry.1, request timeout :: retry.2)
      | .error e => (.raised e, [request timeout])

def rawAttempts (x : Surroundings rho) (request : OutboundRequest) :
    Nat -> Nat -> Ended rho × List OutboundRequest
  | 0, _ => (.exhausted, [])
  | left + 1, attempt =>
    let retry := rawAttempts x request left (attempt + 1)
    match x.answer attempt request with
    | .ok value => (.returned value, [request])
    | .error (.network _) => (retry.1, request :: retry.2)
    | .error e => (.raised e, [request])

/-- Attempts under the breaker.  An exception leaves the breaker as it is. -/
def guarded (x : Surroundings rho) (tried : Ended rho × List OutboundRequest) :
    Called rho :=
  if (p.breaker.allow x.allowTime).1 = true then
    let breaker := (p.breaker.allow x.allowTime).2
    match tried.1 with
    | .returned value =>
      { result := .ok value, reached := tried.2, failedAt := none
        breaker := breaker.recordSuccess }
    | .raised e =>
      { result := .error e, reached := tried.2, failedAt := none
        breaker := breaker }
    | .exhausted =>
      { result := .ok none, reached := tried.2, failedAt := some x.failureTime
        breaker := breaker.recordFailure x.failureTime }
  else
    { result := .ok none, reached := [], failedAt := none, breaker := p.breaker }

section Attempts

variable {p} {x : Surroundings rho}

theorem attemptTimeout_ne_none_iff {attempt : Nat} :
    p.attemptTimeout x attempt ≠ none <->
      forall deadline, x.deadline = some deadline -> x.attemptTime attempt < deadline := by
  unfold attemptTimeout
  cases x.deadline with
  | none => exact ⟨fun _ _ h => absurd h nofun, fun _ => nofun⟩
  | some deadline =>
    simp only [Option.some.injEq, forall_eq']
    split_ifs with hpast
    · exact ⟨fun h => absurd rfl h, fun h => absurd (sub_pos.mpr h) (not_lt.mpr hpast)⟩
    · exact ⟨fun _ => sub_pos.mp (not_le.mp hpast), fun _ => nofun⟩

theorem attempts_reached_iff (request : ℚ -> OutboundRequest) (left attempt : Nat) :
    (p.attempts x request left attempt).2 ≠ [] <->
      0 < left ∧ p.attemptTimeout x attempt ≠ none := by
  cases left with
  | zero => exact ⟨fun h => absurd rfl h, fun h => absurd h.left (lt_irrefl 0)⟩
  | succ left =>
    unfold attempts
    cases htimeout : p.attemptTimeout x attempt with
    | none => exact ⟨fun h => absurd rfl h, fun h => absurd rfl h.right⟩
    | some timeout =>
      refine ⟨fun _ => ⟨Nat.succ_pos left, nofun⟩, fun _ => ?_⟩
      simp only
      split <;> nofun

theorem attempts_not_raised (hx : x.OnlyNetworkErrors) (request : ℚ -> OutboundRequest)
    (e : TransportError) (left attempt : Nat) :
    (p.attempts x request left attempt).1 ≠ .raised e := by
  induction left generalizing attempt with
  | zero => nofun
  | succ left ih =>
    unfold attempts
    cases p.attemptTimeout x attempt with
    | none => nofun
    | some timeout =>
      have hretry : (if left = 0 then (.exhausted, [])
          else if p.givesUp x attempt then (.exhausted, [])
          else p.attempts x request left (attempt + 1) :
            Ended rho × List OutboundRequest).1 ≠ .raised e := by
        split_ifs
        · nofun
        · nofun
        · exact ih (attempt + 1)
      simp only
      split
      · nofun
      · exact hretry
      · exact hretry
      · rename_i other hother hanswer
        rcases hx attempt (request timeout) other hanswer with ⟨cause, rfl⟩
        exact absurd rfl (hother cause)

theorem rawAttempts_reached_iff (request : OutboundRequest) (left attempt : Nat) :
    (rawAttempts x request left attempt).2 ≠ [] <-> 0 < left := by
  cases left with
  | zero => exact ⟨fun h => absurd rfl h, fun h => absurd h (lt_irrefl 0)⟩
  | succ left =>
    refine ⟨fun _ => Nat.succ_pos left, fun _ => ?_⟩
    unfold rawAttempts
    split <;> nofun

theorem rawAttempts_not_raised (hx : x.OnlyNetworkErrors) (request : OutboundRequest)
    (e : TransportError) (left attempt : Nat) :
    (rawAttempts x request left attempt).1 ≠ .raised e := by
  induction left generalizing attempt with
  | zero => nofun
  | succ left ih =>
    unfold rawAttempts
    split
    · nofun
    · exact ih (attempt + 1)
    · rename_i other hother hanswer
      rcases hx attempt request other hanswer with ⟨cause, rfl⟩
      exact absurd rfl (hother cause)

variable (x) (tried : Ended rho × List OutboundRequest)

theorem guarded_reached_iff :
    (p.guarded x tried).reached ≠ [] <->
      (p.breaker.allow x.allowTime).1 = true ∧ tried.2 ≠ [] := by
  unfold guarded
  split_ifs with hallow
  · simp only [hallow, true_and]
    cases tried.1 <;> rfl
  · exact ⟨fun h => absurd rfl h, fun h => absurd h.left hallow⟩

theorem guarded_policy : (p.guarded x tried).breaker.policy = p.breaker.policy := by
  rcases p.breaker.allow_snd x.allowTime with ⟨trial, hbreaker, _⟩
  unfold guarded
  rw [hbreaker]
  split_ifs
  · cases tried.1 with
    | returned value => rfl
    | raised e => rfl
    | exhausted => exact CircuitBreaker.recordFailure_policy x.failureTime
  · rfl

theorem guarded_settled {last : Option ℚ} (h : p.breaker.Settled last)
    (hraised : p.breaker.Closed ∨ forall e, tried.1 ≠ .raised e) :
    (p.guarded x tried).breaker.Settled ((p.guarded x tried).failedAt.or last) := by
  unfold guarded
  split_ifs
  · cases hended : tried.1 with
    | returned value => exact CircuitBreaker.recordSuccess_settled _ last
    | exhausted => exact CircuitBreaker.recordFailure_settled _ x.failureTime
    | raised e =>
      rcases hraised with hclosed | hraised
      · rcases p.breaker.allow_snd x.allowTime with ⟨trial, hbreaker, htrial⟩
        rw [hbreaker, htrial hclosed]
        exact h
      · exact absurd hended (hraised e)
  · exact h

theorem guarded_of_stuck (h : p.breaker.Stuck) :
    (p.guarded x tried).reached = [] ∧ (p.guarded x tried).breaker = p.breaker := by
  unfold guarded
  rw [if_neg (by rw [h.allow]; nofun)]
  exact ⟨rfl, rfl⟩

end Attempts

variable [Tracing] [JsonCodec json]

def requestWithRetry (x : Surroundings json) (method path : String)
    (payload : Option (Dict String json)) (extraHeaders : Option (Dict String String))
    (rawBody : Option Bytes) : Called json :=
  let given := payload.filter (fun object => !object.entries.isEmpty)
  let typed :=
    if given.isSome then p.baseHeaders.set "Content-Type" "application/json"
    else p.baseHeaders
  let request (timeout : ℚ) : OutboundRequest :=
    { method := method
      url := p.baseUrl ++ path
      body := rawBody.or (given.map JsonCodec.dumps)
      headers := Tracing.inject (updated typed extraHeaders)
      timeoutSec := timeout }
  p.guarded x (p.attempts x request p.maxRetries.toNat 0)

def heartbeat (x : Surroundings json) : Called json :=
  p.requestWithRetry x "GET" "/heartbeat" none (some p.baseHeaders) none

def requestRaw (x : Surroundings RawResponse) (method path : String)
    (extraHeaders : Option (Dict String String)) : Called RawResponse :=
  let request : OutboundRequest :=
    { method := method
      url := p.baseUrl ++ path
      body := none
      headers := Tracing.inject (updated p.baseHeaders extraHeaders)
      timeoutSec := p.timeoutSec }
  p.guarded x (rawAttempts x request p.maxRetries.toNat 0)

end Peer

/-!
# Sequences of calls
-/

inductive PeerCall (json : Type) where
  | withRetry (x : Surroundings json) (method path : String)
      (payload : Option (Dict String json)) (extraHeaders : Option (Dict String String))
      (rawBody : Option Bytes)
  | raw (x : Surroundings RawResponse) (method path : String)
      (extraHeaders : Option (Dict String String))

structure Watched where
  peer : Peer
  lastFailure : Option ℚ

namespace PeerCall

variable {json : Type}

def allowTime : PeerCall json -> ℚ
  | .withRetry x _ _ _ _ _ => x.allowTime
  | .raw x _ _ _ => x.allowTime

def InTime : PeerCall json -> Prop
  | .withRetry x _ _ _ _ _ => forall deadline, x.deadline = some deadline ->
      x.attemptTime 0 < deadline
  | .raw _ _ _ _ => True

def OnlyNetworkErrors : PeerCall json -> Prop
  | .withRetry x _ _ _ _ _ => x.OnlyNetworkErrors
  | .raw x _ _ _ => x.OnlyNetworkErrors

end PeerCall

namespace Watched

variable {json : Type} [Tracing] [JsonCodec json]

/-- The requests of a call, the failure it records and the breaker it leaves. -/
def effect (w : Watched) : PeerCall json ->
    List OutboundRequest × Option ℚ × CircuitBreaker
  | .withRetry x method path payload extraHeaders rawBody =>
    let called := w.peer.requestWithRetry x method path payload extraHeaders rawBody
    (called.reached, called.failedAt, called.breaker)
  | .raw x method path extraHeaders =>
    let called := w.peer.requestRaw x method path extraHeaders
    (called.reached, called.failedAt, called.breaker)

def step (w : Watched) (c : PeerCall json) : Watched :=
  { peer := { w.peer with breaker := (w.effect c).2.2 }
    lastFailure := (w.effect c).2.1.or w.lastFailure }

def create (p : Peer) (policy : CircuitBreakerPolicy) : Watched :=
  { peer := { p with breaker := CircuitBreaker.create policy }, lastFailure := none }

def Rested (w : Watched) (now : ℚ) : Prop :=
  forall time, w.lastFailure = some time -> time + w.peer.breaker.policy.coolDown ≤ now

/-- A call either finds the breaker closed or meets only network errors. -/
def Orderly (w : Watched) (c : PeerCall json) : Prop :=
  w.peer.breaker.Closed ∨ c.OnlyNetworkErrors

theorem effect_reached_iff (w : Watched) (c : PeerCall json) :
    (w.effect c).1 ≠ [] <->
      (w.peer.breaker.allow c.allowTime).1 = true ∧ 0 < w.peer.maxRetries ∧ c.InTime := by
  cases c with
  | withRetry x method path payload extraHeaders rawBody =>
    show (w.peer.requestWithRetry x method path payload extraHeaders rawBody).reached ≠ [] <->
      _
    unfold Peer.requestWithRetry
    rw [Peer.guarded_reached_iff, Peer.attempts_reached_iff,
      Peer.attemptTimeout_ne_none_iff, Int.lt_toNat]
    rfl
  | raw x method path extraHeaders =>
    show (w.peer.requestRaw x method path extraHeaders).reached ≠ [] <-> _
    unfold Peer.requestRaw
    rw [Peer.guarded_reached_iff, Peer.rawAttempts_reached_iff, Int.lt_toNat]
    exact and_congr_right (fun _ => (and_iff_left trivial).symm)

/-- Each call leaves the breaker settled if it is orderly, keeps the policy, and does
nothing to a breaker that is stuck. -/
theorem effect_breaker (w : Watched) (c : PeerCall json) :
    (w.effect c).2.2.policy = w.peer.breaker.policy ∧
      (w.peer.breaker.Settled w.lastFailure -> w.Orderly c ->
        (w.effect c).2.2.Settled ((w.effect c).2.1.or w.lastFailure)) ∧
      (w.peer.breaker.Stuck -> (w.effect c).1 = [] ∧ (w.effect c).2.2 = w.peer.breaker) := by
  cases c with
  | withRetry x method path payload extraHeaders rawBody =>
    refine ⟨Peer.guarded_policy x _, fun hsettled horderly => ?_,
      fun hstuck => Peer.guarded_of_stuck x _ hstuck⟩
    apply Peer.guarded_settled x _ hsettled
    exact horderly.imp_right (fun honly e => Peer.attempts_not_raised honly _ e _ _)
  | raw x method path extraHeaders =>
    refine ⟨Peer.guarded_policy x _, fun hsettled horderly => ?_,
      fun hstuck => Peer.guarded_of_stuck x _ hstuck⟩
    apply Peer.guarded_settled x _ hsettled
    exact horderly.imp_right (fun honly e => Peer.rawAttempts_not_raised honly _ e _ _)

structure Sound (w : Watched) (p : Peer) (policy : CircuitBreakerPolicy) : Prop where
  maxRetries : w.peer.maxRetries = p.maxRetries
  policy : w.peer.breaker.policy = policy
  settled : w.peer.breaker.Settled w.lastFailure

theorem step_sound {w : Watched} {p : Peer} {policy : CircuitBreakerPolicy}
    (h : w.Sound p policy) {c : PeerCall json} (hc : w.Orderly c) :
    (w.step c).Sound p policy := by
  rcases w.effect_breaker c with ⟨hpolicy, hsettled, _⟩
  exact
    { maxRetries := h.maxRetries
      policy := hpolicy.trans h.policy
      settled := hsettled h.settled hc }

/-- After a run of orderly calls, a call that comes after the cool-down reaches the
transport exactly when the peer is given an attempt and the deadline has not passed. -/
theorem run_reaches_iff (p : Peer) (policy : CircuitBreakerPolicy) {calls : List (PeerCall json)}
    (horderly : Along step Orderly (create p policy) calls) (next : PeerCall json)
    (hrested : (run step (create p policy) calls).Rested next.allowTime)
    (hclock : 0 < policy.failureThreshold ∨ 0 ≤ next.allowTime) :
    ((run step (create p policy) calls).effect next).1 ≠ [] <->
      0 < p.maxRetries ∧ next.InTime := by
  have hstart : (create p policy).Sound p policy :=
    { maxRetries := rfl, policy := rfl, settled := CircuitBreaker.create_settled policy }
  have hsound := run_of_along (fun w => w.Sound p policy)
    (fun _ _ hw hc => step_sound hw hc) hstart horderly
  have hallow : ((run step (create p policy) calls).peer.breaker.allow next.allowTime).1 =
      true := by
    apply hsound.settled.allow hrested
    rw [hsound.policy]
    exact hclock
  rw [effect_reached_iff, hsound.maxRetries]
  exact and_iff_right hallow

theorem run_of_stuck {w : Watched} (h : w.peer.breaker.Stuck) (calls : List (PeerCall json)) :
    (run step w calls).peer.breaker.Stuck := by
  have halong : Along step (fun (_ : Watched) (_ : PeerCall json) => True) w calls :=
    along_of_forall (fun _ _ => trivial) w calls
  apply run_of_along (fun w => w.peer.breaker.Stuck) _ h halong
  intro w c hw _
  show (w.effect c).2.2.Stuck
  rw [((w.effect_breaker c).right.right hw).right]
  exact hw

end Watched

/-!
# A late call and a lost trial

A call whose deadline has passed is not sent.  In the second run the first call fails
and opens the breaker, and the trial after the cool-down gets a page that is not JSON.
The exception leaves the trial claimed, so no later call is sent.
-/

section Lockout

@[reducible] def Tracing.off : Tracing where
  inject headers := headers

@[reducible] def JsonCodec.unreadable : JsonCodec Unit where
  dumps _ := []
  loads _ := none
  emptyObject := ()

attribute [local instance] peerParser Tracing.off JsonCodec.unreadable

def quickPolicy : CircuitBreakerPolicy where
  failureThreshold := 1
  coolDown := 30

def quickPeer : Peer :=
  Peer.create "http://peer.example:8080" 5 1 1 "" "" quickPolicy

def askingAt (now : ℚ) (deadline : Option ℚ)
    (answer : OutboundRequest -> Except TransportError (Option Unit)) : PeerCall Unit :=
  .withRetry
    { allowTime := now, deadline := deadline, attemptTime := fun _ => now
      answer := fun _ => answer, random := fun _ => 0, retryTime := fun _ => now
      failureTime := now }
    "GET" "/heartbeat" none none none

def pageAnswer (request : OutboundRequest) : Except TransportError (Option Unit) :=
  (HTTPTransport.request strictPolicy (resolving [.ok [publicAddress], .ok [publicAddress]])
    (some (HttpClient.preferring (fun _ => .ok []) publicAddress
      (.ok { statusCode := 200, headers := Dict.empty, content := [], text := "<html>" })))
    request).result

def lostTrial : List (PeerCall Unit) :=
  [askingAt 0 none (fun _ => .ok none), askingAt 40 none pageAnswer]

theorem refusedCall_reaches_again :
    (Watched.create quickPeer quickPolicy).Orderly
        (askingAt 0 none (fun _ => .ok none)) ∧
      ((run Watched.step (Watched.create quickPeer quickPolicy)
        [askingAt 0 none (fun _ => .ok none)]).effect
          (askingAt 30 none pageAnswer)).1 ≠ [] := by
  have horderly : (Watched.create quickPeer quickPolicy).Orderly
      (askingAt 0 none (fun _ => .ok none)) := Or.inr (fun _ _ _ h => by cases h)
  have halong : Along Watched.step Watched.Orderly (Watched.create quickPeer quickPolicy)
      [askingAt 0 none (fun _ => .ok none)] := ⟨horderly, trivial⟩
  refine ⟨horderly, (Watched.run_reaches_iff quickPeer quickPolicy halong
    (askingAt 30 none pageAnswer) ?_ (Or.inl (by decide))).mpr ⟨by decide, nofun⟩⟩
  intro time htime
  cases htime
  decide +kernel

theorem lateOrLost_not_reached :
    ((Watched.create quickPeer quickPolicy).Rested 1 ∧
      ((Watched.create quickPeer quickPolicy).effect
        (askingAt 1 (some 0) (fun _ => .ok (some ())))).1 = []) ∧
    (run Watched.step (Watched.create quickPeer quickPolicy) lostTrial).Rested 1000 ∧
      forall (later : List (PeerCall Unit)) (next : PeerCall Unit),
        ((run Watched.step (run Watched.step (Watched.create quickPeer quickPolicy) lostTrial)
          later).effect next).1 = [] := by
  have hstuck : (run Watched.step (Watched.create quickPeer quickPolicy)
      lostTrial).peer.breaker.Stuck :=
    { claimed := by decide +kernel, tripped := by decide +kernel }
  refine ⟨⟨nofun, by decide +kernel⟩, ?_, fun later next => ?_⟩
  · intro time htime
    have hlast : (run Watched.step (Watched.create quickPeer quickPolicy)
        lostTrial).lastFailure = some 0 := by decide +kernel
    cases hlast.symm.trans htime
    decide +kernel
  · exact ((Watched.effect_breaker _ next).right.right
      (Watched.run_of_stuck hstuck later)).left

end Lockout

end Network
end Membrane
