import Membrane.Persistence.WriteBehind

/-!
# Stopping the writer

The callers of the writer, its background thread and a call of `stop` run side by
side.  Each of them advances by the accesses it makes to the queue, to the stop flag
and to the backend, and the accesses come in any order.

An operation is offered by a start of the thread and a put into the queue.  The run
remembers what was offered, what the backend took, and what had been offered and
taken whenever a call of `stop` returned.
-/

namespace Membrane
namespace Persistence

open Foundation Data

namespace PersistenceWriter

theorem enqueue_cases (w : PersistenceWriter) (operation : PersistenceOperation) :
    (w.enqueue operation).pending = w.pending ∨
      (w.enqueue operation).pending = w.pending ++ [operation] := by
  unfold enqueue
  split
  · exact Or.inl rfl
  · refine Or.inr ?_
    unfold pending
    rw [List.append_assoc]

theorem enqueue_of_room {w : PersistenceWriter}
    (hroom : 0 < w.capacity -> w.queue.length < w.capacity) (operation : PersistenceOperation) :
    (w.enqueue operation).pending = w.pending ++ [operation] := by
  apply enqueue_of_kept
  unfold enqueue
  rw [if_neg]
  intro hfull
  exact absurd (hroom hfull.left) (Nat.not_lt.mpr hfull.right)

end PersistenceWriter

inductive ThreadPhase where
  | absent
  | checking
  | getting
  | applying
  | backingOff
  deriving DecidableEq

/-- Where a call of `stop` stands, with the answer of its flush and the number of
operations it has drained. -/
inductive StopPhase where
  | flushing
  | setting (flushed : Bool)
  | joining (flushed : Bool)
  | draining (flushed : Bool) (left : Nat)
  deriving DecidableEq

def StopPhase.answer : StopPhase -> Option Bool
  | .flushing => none
  | .setting flushed => some flushed
  | .joining flushed => some flushed
  | .draining flushed left => some (flushed && left == 0)

structure StopReturn where
  answer : Bool
  offered : List PersistenceOperation
  applied : List PersistenceOperation

structure RunningWriter where
  nodeId : String
  writer : PersistenceWriter
  persistence : Redis
  stopping : Bool
  thread : ThreadPhase
  stopCall : Option StopPhase
  offered : List PersistenceOperation
  applied : List PersistenceOperation
  returns : List StopReturn

inductive WriterStep where
  | start
  | put (operation : PersistenceOperation)
  | check
  | get
  | attempt (succeeds : Bool)
  | wake
  | stop
  | flush (expired : Bool)
  | setStopping
  | join (expired : Bool)
  | drain

namespace RunningWriter

def create (nodeId : String) (capacity : Nat) (r : Redis) : RunningWriter where
  nodeId := nodeId
  writer := PersistenceWriter.create capacity
  persistence := r
  stopping := false
  thread := .absent
  stopCall := none
  offered := []
  applied := []
  returns := []

/-!
# The callers
-/

def start (s : RunningWriter) : RunningWriter :=
  match s.thread with
  | .absent => { s with stopping := false, thread := .checking }
  | _ => s

def put (s : RunningWriter) (operation : PersistenceOperation) : RunningWriter :=
  { s with
    writer := s.writer.enqueue operation
    offered := s.offered ++ [operation] }

def enqueue (operation : PersistenceOperation) : List WriterStep :=
  [.start, .put operation]

/-!
# The background thread
-/

def check (s : RunningWriter) : RunningWriter :=
  match s.thread with
  | .checking =>
    if s.stopping then { s with thread := .absent } else { s with thread := .getting }
  | _ => s

def get (s : RunningWriter) : RunningWriter :=
  match s.thread, s.writer.queue with
  | .getting, [] => { s with thread := .checking }
  | .getting, _ :: _ => { s with writer := s.writer.take, thread := .applying }
  | _, _ => s

def attempt [TextRecord.NumberText] (s : RunningWriter) (succeeds : Bool) : RunningWriter :=
  match s.thread, s.writer.inFlight with
  | .applying, some operation =>
    if succeeds then
      { s with
        writer := { s.writer with inFlight := none }
        persistence := operation.apply s.nodeId s.persistence
        thread := .checking
        applied := s.applied ++ [operation] }
    else { s with thread := .backingOff }
  | _, _ => s

/-- The wait between two attempts is over: the operation is given up if the writer
stops. -/
def wake (s : RunningWriter) : RunningWriter :=
  match s.thread, s.writer.inFlight with
  | .backingOff, some _ =>
    if s.stopping then
      { s with
        writer := { s.writer with inFlight := none, dropped := s.writer.dropped + 1 }
        thread := .checking }
    else { s with thread := .applying }
  | _, _ => s

/-!
# The call of `stop`
-/

def stop (s : RunningWriter) : RunningWriter :=
  match s.stopCall with
  | none => { s with stopCall := some .flushing }
  | some _ => s

def flush (s : RunningWriter) (expired : Bool) : RunningWriter :=
  match s.stopCall with
  | some .flushing =>
    if s.writer.pending = [] then { s with stopCall := some (.setting true) }
    else if expired ∨ s.thread = .absent then { s with stopCall := some (.setting false) }
    else s
  | _ => s

def setStopping (s : RunningWriter) : RunningWriter :=
  match s.stopCall with
  | some (.setting flushed) => { s with stopping := true, stopCall := some (.joining flushed) }
  | _ => s

def join (s : RunningWriter) (expired : Bool) : RunningWriter :=
  match s.stopCall with
  | some (.joining flushed) =>
    if expired ∨ s.thread = .absent then { s with stopCall := some (.draining flushed 0) }
    else s
  | _ => s

def drain (s : RunningWriter) : RunningWriter :=
  match s.stopCall, s.writer.queue with
  | some (.draining flushed left), [] =>
    { s with
      stopCall := none
      returns := s.returns ++ [⟨flushed && left == 0, s.offered, s.applied⟩] }
  | some (.draining flushed left), _ :: rest =>
    { s with
      writer := { s.writer with queue := rest, dropped := s.writer.dropped + 1 }
      stopCall := some (.draining flushed (left + 1)) }
  | _, _ => s

def step [TextRecord.NumberText] (s : RunningWriter) : WriterStep -> RunningWriter
  | .start => s.start
  | .put operation => s.put operation
  | .check => s.check
  | .get => s.get
  | .attempt succeeds => s.attempt succeeds
  | .wake => s.wake
  | .stop => s.stop
  | .flush expired => s.flush expired
  | .setStopping => s.setStopping
  | .join expired => s.join expired
  | .drain => s.drain

/-!
# The order of the backend
-/

structure Ordered [TextRecord.NumberText] (r : Redis) (s : RunningWriter) : Prop where
  ordered : List.Sublist (s.applied ++ s.writer.pending) s.offered
  persisted : s.persistence = PersistenceOperation.applyAll s.nodeId r s.applied

structure Quiet (s t : RunningWriter) : Prop where
  nodeId : t.nodeId = s.nodeId
  persistence : t.persistence = s.persistence
  offered : t.offered = s.offered
  applied : t.applied = s.applied
  pending : t.writer.pending = s.writer.pending

variable {s : RunningWriter}

section

variable (s : RunningWriter)

theorem Quiet.refl : Quiet s s :=
  ⟨rfl, rfl, rfl, rfl, rfl⟩

theorem start_quiet : Quiet s s.start := by
  unfold start
  split
  · exact ⟨rfl, rfl, rfl, rfl, rfl⟩
  · exact Quiet.refl s

theorem check_quiet : Quiet s s.check := by
  unfold check
  split
  · split
    · exact ⟨rfl, rfl, rfl, rfl, rfl⟩
    · exact ⟨rfl, rfl, rfl, rfl, rfl⟩
  · exact Quiet.refl s

theorem get_quiet : Quiet s s.get := by
  unfold get
  split
  · exact ⟨rfl, rfl, rfl, rfl, rfl⟩
  · exact ⟨rfl, rfl, rfl, rfl, s.writer.pending_take⟩
  · exact Quiet.refl s

theorem stop_quiet : Quiet s s.stop := by
  unfold stop
  split
  · exact ⟨rfl, rfl, rfl, rfl, rfl⟩
  · exact Quiet.refl s

theorem flush_quiet (expired : Bool) : Quiet s (s.flush expired) := by
  unfold flush
  split
  · split
    · exact ⟨rfl, rfl, rfl, rfl, rfl⟩
    · split
      · exact ⟨rfl, rfl, rfl, rfl, rfl⟩
      · exact Quiet.refl s
  · exact Quiet.refl s

theorem setStopping_quiet : Quiet s s.setStopping := by
  unfold setStopping
  split
  · exact ⟨rfl, rfl, rfl, rfl, rfl⟩
  · exact Quiet.refl s

theorem join_quiet (expired : Bool) : Quiet s (s.join expired) := by
  unfold join
  split
  · split
    · exact ⟨rfl, rfl, rfl, rfl, rfl⟩
    · exact Quiet.refl s
  · exact Quiet.refl s

end

variable {r : Redis} {t : RunningWriter} {operation : PersistenceOperation}

section

variable [TextRecord.NumberText] (h : Ordered r s)

include h

theorem Ordered.of_quiet (hquiet : Quiet s t) : Ordered r t := by
  constructor
  · rw [hquiet.applied, hquiet.pending, hquiet.offered]
    exact h.ordered
  · rw [hquiet.persistence, hquiet.nodeId, hquiet.applied]
    exact h.persisted

theorem Ordered.put (operation : PersistenceOperation) :
    Ordered r (s.put operation) := by
  refine ⟨?_, h.persisted⟩
  show List.Sublist (s.applied ++ (s.writer.enqueue operation).pending)
    (s.offered ++ [operation])
  rcases s.writer.enqueue_cases operation with hfull | hkept
  · rw [hfull]
    exact h.ordered.trans (List.sublist_append_left _ _)
  · rw [hkept, ← List.append_assoc]
    exact h.ordered.append_right _

theorem Ordered.attempt (succeeds : Bool) :
    Ordered r (s.attempt succeeds) := by
  unfold RunningWriter.attempt
  split
  next operation _ hflight =>
      split
      · constructor
        · have hpending : s.writer.pending = operation :: s.writer.queue := by
            unfold PersistenceWriter.pending
            rw [hflight]
            rfl
          have hordered := h.ordered
          rw [hpending] at hordered
          rw [List.append_assoc]
          exact hordered
        · unfold PersistenceOperation.applyAll
          rw [List.foldl_append, h.persisted]
          rfl
      · exact h.of_quiet ⟨rfl, rfl, rfl, rfl, rfl⟩
  · exact h

theorem Ordered.lose {w : PersistenceWriter} (hlost : List.Sublist w.pending s.writer.pending) :
    List.Sublist (s.applied ++ w.pending) s.offered :=
  (hlost.append_left s.applied).trans h.ordered

theorem Ordered.wake : Ordered r s.wake := by
  unfold RunningWriter.wake
  split
  · split
    · exact ⟨h.lose (List.sublist_append_right _ _), h.persisted⟩
    · exact h.of_quiet ⟨rfl, rfl, rfl, rfl, rfl⟩
  · exact h

theorem Ordered.drain : Ordered r s.drain := by
  unfold RunningWriter.drain
  split
  · exact h.of_quiet ⟨rfl, rfl, rfl, rfl, rfl⟩
  next _ _ head rest _ hqueue =>
      refine ⟨h.lose ?_, h.persisted⟩
      show List.Sublist (s.writer.inFlight.toList ++ rest)
        (s.writer.inFlight.toList ++ s.writer.queue)
      rw [hqueue]
      exact (List.sublist_cons_self head rest).append_left _
  · exact h

theorem Ordered.step (o : WriterStep) : Ordered r (s.step o) := by
  cases o with
  | start => exact h.of_quiet (start_quiet s)
  | put operation => exact h.put operation
  | check => exact h.of_quiet (check_quiet s)
  | get => exact h.of_quiet (get_quiet s)
  | attempt succeeds => exact h.attempt succeeds
  | wake => exact h.wake
  | stop => exact h.of_quiet (stop_quiet s)
  | flush expired => exact h.of_quiet (flush_quiet s expired)
  | setStopping => exact h.of_quiet (setStopping_quiet s)
  | join expired => exact h.of_quiet (join_quiet s expired)
  | drain => exact h.drain

end

section

variable [TextRecord.NumberText] (nodeId : String) (capacity : Nat) (r : Redis)

theorem create_ordered :
    Ordered r (create nodeId capacity r) :=
  ⟨List.Sublist.refl [], rfl⟩

theorem run_ordered (steps : List WriterStep) :
    Throughout step (Ordered r) (create nodeId capacity r) steps :=
  throughout_of_step (Ordered r) (fun _ o h => h.step o)
    (create_ordered nodeId capacity r) steps

end

/-!
# What `stop` promises

A call of `stop` that returns true says that everything offered so far was applied.
This needs that no operation meets a full queue, that none is offered between the
flush of a stop and the next start of the thread, and that no stop is called again
after one that returned false.
-/

def found (s : RunningWriter) : Option Bool :=
  s.stopCall.bind StopPhase.answer

def Honest (s : RunningWriter) : Prop :=
  forall r, r ∈ s.returns -> r.answer = true -> r.applied = r.offered

def Orderly (s : RunningWriter) : WriterStep -> Prop
  | .put _ =>
    (0 < s.writer.capacity -> s.writer.queue.length < s.writer.capacity) ∧
      s.stopping = false ∧ s.found = none
  | .stop => forall r, r ∈ s.returns -> r.answer = true
  | _ => True

def Failed (s : RunningWriter) : Prop :=
  s.found = some false ∨ (s.stopCall = none ∧ exists r, r ∈ s.returns ∧ r.answer = false)

/-- Nothing offered is missing, and nothing is left to a thread that stops. -/
structure Faithful (s : RunningWriter) : Prop where
  kept : s.applied ++ s.writer.pending = s.offered
  stopped : s.stopping = true -> s.writer.pending = []
  flushed : s.found = some true -> s.writer.pending = []

structure Sound (s : RunningWriter) : Prop where
  honest : Honest s
  faithful : Failed s ∨ Faithful s

theorem create_sound (nodeId : String) (capacity : Nat) (r : Redis) :
    Sound (create nodeId capacity r) := by
  refine ⟨?_, Or.inr ⟨rfl, fun _ => rfl, fun _ => rfl⟩⟩
  intro stopReturn hr
  exact absurd hr List.not_mem_nil

/-!
## Steps beside the call of `stop`
-/

theorem Sound.beside (h : Sound s) (hcall : t.stopCall = s.stopCall)
    (hreturns : t.returns = s.returns) (hkept : Faithful s -> Faithful t) : Sound t := by
  constructor
  · unfold Honest
    rw [hreturns]
    exact h.honest
  · rcases h.faithful with hfailed | hfaithful
    · refine Or.inl ?_
      unfold Failed found at hfailed ⊢
      rw [hcall, hreturns]
      exact hfailed
    · exact Or.inr (hkept hfaithful)

theorem Faithful.of_quiet (h : Faithful s) (hquiet : Quiet s t)
    (hstopping : t.stopping = true -> s.stopping = true)
    (hfound : t.found = some true -> s.found = some true) : Faithful t := by
  constructor
  · rw [hquiet.applied, hquiet.pending, hquiet.offered]
    exact h.kept
  · intro hset
    rw [hquiet.pending]
    exact h.stopped (hstopping hset)
  · intro htrue
    rw [hquiet.pending]
    exact h.flushed (hfound htrue)

theorem Sound.start (h : Sound s) : Sound s.start := by
  have hquiet := start_quiet s
  unfold RunningWriter.start at hquiet ⊢
  split at hquiet
  · exact h.beside rfl rfl (fun hs => hs.of_quiet hquiet (fun hset => (nomatch hset)) id)
  · exact h

theorem Sound.check (h : Sound s) : Sound s.check := by
  unfold RunningWriter.check
  split
  · split
    · exact h.beside rfl rfl (fun hs => ⟨hs.kept, hs.stopped, hs.flushed⟩)
    · exact h.beside rfl rfl (fun hs => ⟨hs.kept, hs.stopped, hs.flushed⟩)
  · exact h

theorem Sound.get (h : Sound s) : Sound s.get := by
  have hquiet := get_quiet s
  unfold RunningWriter.get at hquiet ⊢
  split at hquiet
  · exact h.beside rfl rfl (fun hs => hs.of_quiet hquiet id id)
  · exact h.beside rfl rfl (fun hs => hs.of_quiet hquiet id id)
  · exact h

theorem Faithful.put (h : Faithful s) (horderly : Orderly s (.put operation)) :
    Faithful (s.put operation) := by
  obtain ⟨hroom, hstopping, hfound⟩ := horderly
  constructor
  · show s.applied ++ (s.writer.enqueue operation).pending = s.offered ++ [operation]
    rw [PersistenceWriter.enqueue_of_room hroom, ← List.append_assoc, h.kept]
  · intro hset
    exact absurd (hstopping.symm.trans hset) Bool.false_ne_true
  · intro htrue
    exact absurd (hfound.symm.trans htrue) (Option.some_ne_none true).symm

theorem Faithful.of_inFlight (h : Faithful s) (hflight : s.writer.inFlight = some operation) :
    s.writer.pending = operation :: s.writer.queue ∧ ¬ s.stopping = true ∧
      ¬ s.found = some true := by
  have hpending : s.writer.pending = operation :: s.writer.queue := by
    unfold PersistenceWriter.pending
    rw [hflight]
    rfl
  refine ⟨hpending, ?_, ?_⟩
  · intro hset
    exact List.cons_ne_nil _ _ (hpending.symm.trans (h.stopped hset))
  · intro htrue
    exact List.cons_ne_nil _ _ (hpending.symm.trans (h.flushed htrue))

theorem Sound.attempt [TextRecord.NumberText] (h : Sound s) (succeeds : Bool) :
    Sound (s.attempt succeeds) := by
  unfold RunningWriter.attempt
  split
  next operation _ hflight =>
      split
      · refine h.beside rfl rfl (fun hs => ?_)
        obtain ⟨hpending, hstopping, hfound⟩ := hs.of_inFlight hflight
        refine ⟨?_, fun hset => absurd hset hstopping, fun htrue => absurd htrue hfound⟩
        rw [List.append_assoc, ← hs.kept, hpending]
        rfl
      · exact h.beside rfl rfl (fun hs => ⟨hs.kept, hs.stopped, hs.flushed⟩)
  · exact h

theorem Sound.wake (h : Sound s) : Sound s.wake := by
  unfold RunningWriter.wake
  split
  next _ _ hflight =>
      split
      next hset =>
          exact h.beside rfl rfl
            (fun hs => absurd hset (hs.of_inFlight hflight).right.left)
      · exact h.beside rfl rfl (fun hs => ⟨hs.kept, hs.stopped, hs.flushed⟩)
  · exact h

/-!
## Steps of the call of `stop`
-/

theorem Failed.found_eq (h : Failed s) {p : StopPhase} (hcall : s.stopCall = some p) :
    p.answer = some false := by
  rcases h with hfound | hnone
  · unfold found at hfound
    rw [hcall] at hfound
    exact hfound
  · rw [hcall] at hnone
    exact absurd hnone.left (Option.some_ne_none p)

section

variable (h : Sound s)

include h

theorem Sound.stop (horderly : Orderly s .stop) : Sound s.stop := by
  unfold RunningWriter.stop
  split
  next hcall =>
      refine ⟨h.honest, Or.inr ?_⟩
      rcases h.faithful with (hfound | ⟨_, r, hr, hfalse⟩) | hs
      · unfold found at hfound
        rw [hcall] at hfound
        exact (nomatch hfound)
      · exact absurd ((horderly r hr).symm.trans hfalse).symm Bool.false_ne_true
      · exact ⟨hs.kept, hs.stopped, fun htrue => (nomatch htrue)⟩
  · exact h

theorem Sound.flush (expired : Bool) : Sound (s.flush expired) := by
  unfold RunningWriter.flush
  split
  next hcall =>
      split
      next hempty =>
          refine ⟨h.honest, Or.inr ?_⟩
          rcases h.faithful with hfailed | hs
          · exact (nomatch hfailed.found_eq hcall)
          · exact ⟨hs.kept, hs.stopped, fun _ => hempty⟩
      · split
        · exact ⟨h.honest, Or.inl (Or.inl rfl)⟩
        · exact h
  · exact h

theorem Sound.advance {p q : StopPhase} (hs : s.stopCall = some p)
    (ht : t.stopCall = some q) (hanswer : q.answer = p.answer) (hreturns : t.returns = s.returns)
    (hkept : p.answer ≠ some false -> Faithful s -> Faithful t) : Sound t := by
  constructor
  · unfold Honest
    rw [hreturns]
    exact h.honest
  · have hfound : t.found = p.answer := by
      unfold found
      rw [ht]
      exact hanswer
    by_cases hfalse : p.answer = some false
    · exact Or.inl (Or.inl (hfound.trans hfalse))
    · rcases h.faithful with hfailed | hfaithful
      · exact absurd (hfailed.found_eq hs) hfalse
      · exact Or.inr (hkept hfalse hfaithful)

theorem Sound.setStopping : Sound s.setStopping := by
  unfold RunningWriter.setStopping
  split
  next flushed hcall =>
      refine h.advance hcall rfl rfl rfl (fun hfound hs => ?_)
      cases flushed with
      | false => exact absurd rfl hfound
      | true =>
        have hempty : s.writer.pending = [] := by
          apply hs.flushed
          unfold found
          rw [hcall]
          rfl
        exact ⟨hs.kept, fun _ => hempty, fun _ => hempty⟩
  · exact h

theorem Sound.join (expired : Bool) : Sound (s.join expired) := by
  unfold RunningWriter.join
  split
  next flushed hcall =>
      split
      · have hanswer : (StopPhase.draining flushed 0).answer = some flushed := by
          show some (flushed && true) = _
          rw [Bool.and_true]
        refine h.advance hcall rfl hanswer rfl (fun _ hs => ⟨hs.kept, hs.stopped, ?_⟩)
        intro htrue
        apply hs.flushed
        unfold found at htrue ⊢
        rw [hcall]
        exact hanswer.symm.trans htrue
      · exact h
  · exact h

theorem Sound.drain : Sound s.drain := by
  unfold RunningWriter.drain
  split
  next flushed left hcall _ =>
      have hfound : s.found = some (flushed && left == 0) := by
        unfold found
        rw [hcall]
        rfl
      cases hanswer : (flushed && left == 0) with
      | false =>
        refine ⟨?_, Or.inl (Or.inr
          ⟨rfl, _, List.mem_append_right _ List.mem_cons_self, rfl⟩)⟩
        intro r hr htrue
        rcases List.mem_append.mp hr with hr | hr
        · exact h.honest r hr htrue
        · rw [List.mem_singleton.mp hr] at htrue
          exact absurd htrue Bool.false_ne_true
      | true =>
        rw [hanswer] at hfound
        rcases h.faithful with hfailed | hs
        · have hfalse : some (flushed && left == 0) = some false := hfailed.found_eq hcall
          rw [hanswer] at hfalse
          exact (nomatch hfalse)
        · have hempty := hs.flushed hfound
          refine ⟨?_, Or.inr ⟨hs.kept, hs.stopped, fun _ => hempty⟩⟩
          intro r hr htrue
          rcases List.mem_append.mp hr with hr | hr
          · exact h.honest r hr htrue
          · rw [List.mem_singleton.mp hr]
            have hkept := hs.kept
            rw [hempty, List.append_nil] at hkept
            exact hkept
  next flushed left _ _ hcall _ =>
      refine ⟨h.honest, Or.inl (Or.inl ?_)⟩
      cases flushed with
      | false | true => rfl
  · exact h

theorem Sound.step [TextRecord.NumberText] (o : WriterStep) (horderly : Orderly s o) :
    Sound (s.step o) := by
  cases o with
  | start => exact h.start
  | put operation => exact h.beside rfl rfl (fun hs => hs.put horderly)
  | check => exact h.check
  | get => exact h.get
  | attempt succeeds => exact h.attempt succeeds
  | wake => exact h.wake
  | stop => exact h.stop horderly
  | flush expired => exact h.flush expired
  | setStopping => exact h.setStopping
  | join expired => exact h.join expired
  | drain => exact h.drain

end

/-- The writer keeps the order in every run, and is honest in every run that neither
fills its queue nor offers operations to a writer that stops. -/
theorem run_ordered_and_honest [TextRecord.NumberText] (nodeId : String) (capacity : Nat)
    (r : Redis) (steps : List WriterStep)
    (horderly : Along step Orderly (create nodeId capacity r) steps) :
    Throughout step (fun s => Ordered r s ∧ Honest s) (create nodeId capacity r) steps := by
  have hsound := throughout_of_along Sound (fun _ o h ho => h.step o ho)
    (create_sound nodeId capacity r) horderly
  intro completed hcompleted
  exact ⟨run_ordered nodeId capacity r steps completed hcompleted,
    (hsound completed hcompleted).honest⟩

attribute [local instance] TextRecord.tallies

def applyAndStop : List WriterStep :=
  [.check, .get, .attempt false, .wake, .attempt true, .stop, .flush false, .setStopping,
    .check, .join false, .drain]

theorem applyAndStop_honest :
    (run step (create "n0" 1 Redis.create)
        (enqueue (.forget "a") ++ applyAndStop)).returns =
      [⟨true, [.forget "a"], [.forget "a"]⟩] ∧
    Throughout step (fun s => Ordered Redis.create s ∧ Honest s)
      (create "n0" 1 Redis.create) (enqueue (.forget "a") ++ applyAndStop) := by
  refine ⟨rfl, run_ordered_and_honest "n0" 1 Redis.create _ ?_⟩
  refine ⟨trivial, ⟨fun _ => Nat.one_pos, rfl, rfl⟩, trivial, trivial, trivial, trivial,
    trivial, ?_, trivial, trivial, trivial, trivial, trivial, trivial⟩
  intro r hr
  exact absurd hr List.not_mem_nil

/-- The second operation meets a full queue, and the stop still returns true. -/
theorem overfilled_not_honest :
    ¬ Throughout step (fun s => Ordered Redis.create s ∧ Honest s)
      (create "n0" 1 Redis.create)
      (enqueue (.forget "a") ++ enqueue (.forget "b") ++ applyAndStop) := by
  intro h
  have hlast := (h _ (List.prefix_refl _)).right
  exact absurd (hlast ⟨true, [.forget "a", .forget "b"], [.forget "a"]⟩
    List.mem_cons_self rfl) (by decide)

/-- An operation offered after the flush is given up by the thread, and the stop still
returns true. -/
example :
    (run step (create "n0" 1 Redis.create)
        ([.start, .check, .stop, .flush false] ++ enqueue (.forget "a") ++
          [.get, .attempt false, .setStopping, .wake, .check, .join false, .drain])).returns =
      [⟨true, [.forget "a"], []⟩] := rfl

end RunningWriter

end Persistence
end Membrane
