import Membrane.Transport.FailClosed

/-!
# Concurrent stores of one key

A store tests whether its key is resident outside the node's lock and decides
with that test, after its quorum attempt, whether to undo its local write.
Between these steps other stores of the same key take theirs.  Here a store is
the sequence of its atomic steps, and a run is any interleaving of any number
of stores.
-/

namespace Membrane
namespace Transport

open Foundation Data Store Serving

structure Write where
  fragment : Fragment
  ctx : StoreContext
  now : ℚ
  evictTime : ℚ

def Write.effective (w : Write) : Fragment := w.ctx.effective w.fragment

inductive Phase where
  | waiting
  | accepted
  | tested (existedBefore : Bool)
  | stored (existedBefore : Bool)
  | settled (existedBefore : Bool) (verdict : StoreContext.Verdict)
  | answered (answer : Except NodeError Response)

def Phase.ofWrite (f : Fragment) (existedBefore : Bool) :
    Except NodeError Bool -> Phase
  | .ok true => .stored existedBefore
  | result => .answered (localAnswer f result)

section Steps

variable {sigma tau pi : Type} [InventoryHash] [ContentStore sigma]
variable [LowerTier tau] [EvictionPolicy pi]

def Write.advance (w : Write) (n : Node sigma tau pi) :
    Phase -> Phase × Node sigma tau pi
  | .waiting =>
    (match rejection n w.effective w.ctx with
      | some response => .answered (.ok response)
      | none => .accepted, n)
  | .accepted => (.tested (decide (w.effective.key ∈ n.fragments)), n)
  | .tested existedBefore =>
    let written := n.store w.effective w.ctx.isPrimary w.ctx.caller w.now w.evictTime
    (Phase.ofWrite w.effective existedBefore written.1, written.2)
  | .stored existedBefore =>
    (.settled existedBefore (w.ctx.verdict w.effective (blobOf n w.effective)), n)
  | .settled existedBefore verdict =>
    let settled := settle n w.effective existedBefore verdict
    (.answered (.ok settled.1), settled.2)
  | .answered answer => (.answered answer, n)

theorem Write.advance_invariant (w : Write) {n : Node sigma tau pi} (hn : n.Invariant)
    (phase : Phase) : (w.advance n phase).2.Invariant := by
  cases phase with
  | waiting | accepted | stored existedBefore | answered answer => exact hn
  | tested existedBefore => exact Node.store_invariant hn
  | settled existedBefore verdict =>
    show (if verdict.rollsBack then
      (if existedBefore then n else Node.after (n.removeFragment w.effective.key))
      else n).Invariant
    split_ifs
    · exact hn
    · exact Node.mutate_invariant hn (.removeFragment w.effective.key)
    · exact hn

end Steps

/-!
# Interleavings

A run is a list that says which store moves next.  A store is live when it has
written and its caller has been, or may still be, told that the write succeeded.
The local copy must outlive every store that is live.
-/

structure Writers (iota sigma tau pi : Type) where
  node : Node sigma tau pi
  phase : iota -> Phase

def Phase.Live : Phase -> Prop
  | .stored _ => True
  | .settled _ verdict => verdict = .acknowledged
  | .answered (.ok response) => response.status = 200
  | _ => False

theorem StoreContext.eq_acknowledged_of_live {f : Fragment} {verdict : StoreContext.Verdict}
    (h : (Phase.answered (.ok (verdict.response f))).Live) :
    verdict = .acknowledged := by
  cases verdict with
  | acknowledged => rfl
  | unreachable required | raised message | failed ackCount required timedOut =>
    cases h

namespace Writers

section Interleavings

variable {iota sigma tau pi : Type}

def start (n : Node sigma tau pi) : Writers iota sigma tau pi :=
  { node := n, phase := fun _ => .waiting }

/-- Once all stores have been answered, one of them with success, the key is
resident. -/
def KeepsAcknowledged (key : String) (s : Writers iota sigma tau pi) : Prop :=
  (forall i, exists answer, s.phase i = .answered answer) ->
    (exists i response, s.phase i = .answered (.ok response) ∧
      response.status = 200) ->
    key ∈ s.node.fragments

def LiveResident (key : String) (s : Writers iota sigma tau pi) : Prop :=
  forall i, (s.phase i).Live -> key ∈ s.node.fragments

theorem LiveResident.keepsAcknowledged {key : String} {s : Writers iota sigma tau pi}
    (h : LiveResident key s) : KeepsAcknowledged key s := by
  intro _ hacknowledged
  rcases hacknowledged with ⟨i, response, hphase, hstatus⟩
  apply h i
  rw [hphase]
  exact hstatus

variable [DecidableEq iota] [InventoryHash] [ContentStore sigma]
variable [LowerTier tau] [EvictionPolicy pi]
variable (writes : iota -> Write)

def step (s : Writers iota sigma tau pi) (i : iota) : Writers iota sigma tau pi :=
  let moved := (writes i).advance s.node (s.phase i)
  { node := moved.2, phase := Function.update s.phase i moved.1 }

/-- A store is turned away with success only while the key is resident, and a
rollback finds no other store live. -/
def SparesLive (key : String) (s : Writers iota sigma tau pi) (i : iota) : Prop :=
  match s.phase i with
  | .waiting =>
    forall response, rejection s.node (writes i).effective (writes i).ctx = some response ->
      response.status = 200 -> key ∈ s.node.fragments
  | .tested _ =>
    s.node.Declined (writes i).effective (writes i).ctx.caller -> key ∈ s.node.fragments
  | .settled false verdict =>
    verdict.rollsBack = true -> forall j, j ≠ i -> ¬ (s.phase j).Live
  | _ => True

variable {writes} {key : String} {s : Writers iota sigma tau pi} {i : iota}

theorem liveResident_step_iff {phase : Phase} {node : Node sigma tau pi}
    (hmoved : (writes i).advance s.node (s.phase i) = (phase, node)) :
    LiveResident key (step writes s i) <->
      (phase.Live -> key ∈ node.fragments) ∧
        forall j, j ≠ i -> (s.phase j).Live -> key ∈ node.fragments := by
  have hstep : step writes s i =
      { node := node, phase := Function.update s.phase i phase } := by
    unfold step
    rw [hmoved]
  rw [hstep]
  constructor
  · intro h
    constructor
    · have hown := h i
      change (Function.update s.phase i phase i).Live -> key ∈ node.fragments at hown
      rw [Function.update_self] at hown
      exact hown
    · intro j hj
      have hother := h j
      change (Function.update s.phase i phase j).Live -> key ∈ node.fragments at hother
      rw [Function.update_of_ne hj] at hother
      exact hother
  · intro h j hlive
    by_cases hj : j = i
    · subst hj
      apply h.left
      rw [← Function.update_self j phase s.phase]
      exact hlive
    · apply h.right j hj
      rw [← Function.update_of_ne hj phase s.phase]
      exact hlive

theorem liveResident_step_iff_of_keeps (hlive : LiveResident key s) {phase : Phase}
    {node : Node sigma tau pi} (hmoved : (writes i).advance s.node (s.phase i) = (phase, node))
    (hkeeps : key ∈ s.node.fragments -> key ∈ node.fragments) :
    LiveResident key (step writes s i) <-> (phase.Live -> key ∈ node.fragments) := by
  rw [liveResident_step_iff hmoved]
  exact ⟨fun h => h.left, fun h => ⟨h, fun j _ hj => hkeeps (hlive j hj)⟩⟩

theorem waiting_liveResident_iff (hlive : LiveResident key s) (hphase : s.phase i = .waiting) :
    LiveResident key (step writes s i) <->
      forall response, rejection s.node (writes i).effective (writes i).ctx = some response ->
        response.status = 200 -> key ∈ s.node.fragments := by
  cases hreject : rejection s.node (writes i).effective (writes i).ctx with
  | some response =>
    have hmoved : (writes i).advance s.node (s.phase i) =
        (.answered (.ok response), s.node) := by
      rw [hphase]
      unfold Write.advance
      rw [hreject]
    rw [liveResident_step_iff_of_keeps hlive hmoved (fun h => h)]
    constructor
    · intro h other hother
      cases hother
      exact h
    · intro h
      exact h response rfl
  | none =>
    have hmoved : (writes i).advance s.node (s.phase i) = (.accepted, s.node) := by
      rw [hphase]
      unfold Write.advance
      rw [hreject]
    rw [liveResident_step_iff_of_keeps hlive hmoved (fun h => h)]
    constructor
    · intro _ other hother
      cases hother
    · intro _ h
      exact h.elim

theorem tested_liveResident_iff (hkey : (writes i).effective.key = key)
    (hn : s.node.Invariant) (hlive : LiveResident key s) {existedBefore : Bool}
    (hphase : s.phase i = .tested existedBefore) :
    LiveResident key (step writes s i) <->
      (s.node.Declined (writes i).effective (writes i).ctx.caller ->
        key ∈ s.node.fragments) := by
  have hmoved := congrArg ((writes i).advance s.node) hphase
  have hmem := Node.mem_store_iff hn (writes i).effective (writes i).ctx.isPrimary
    (writes i).ctx.caller (writes i).now (writes i).evictTime
  have hdeclined := Node.store_eq_false_iff hn (writes i).effective (writes i).ctx.isPrimary
    (writes i).ctx.caller (writes i).now (writes i).evictTime
  rw [hkey] at hmem
  rw [liveResident_step_iff_of_keeps hlive hmoved (fun h => hmem.mpr (Or.inl h)), hmem,
    ← hdeclined]
  cases (s.node.store (writes i).effective (writes i).ctx.isPrimary (writes i).ctx.caller
    (writes i).now (writes i).evictTime).1 with
  | error e =>
    constructor
    · intro _ h
      cases h
    · intro _ h
      cases e with
      | tenantScope e =>
        cases h
      | missingKey k | contentStore m => exact h.elim
  | ok success =>
    cases success with
    | true =>
      constructor
      · intro _ h
        cases h
      · intro _ _
        exact Or.inr rfl
    | false =>
      constructor
      · intro h _
        rcases h rfl with hk | hfalse
        · exact hk
        · cases hfalse
      · intro h _
        exact Or.inl (h rfl)

theorem settled_liveResident_iff (hkey : (writes i).effective.key = key)
    (hlive : LiveResident key s) {existedBefore : Bool} {verdict : StoreContext.Verdict}
    (hphase : s.phase i = .settled existedBefore verdict) :
    LiveResident key (step writes s i) <->
      (existedBefore = false -> verdict.rollsBack = true ->
        forall j, j ≠ i -> ¬ (s.phase j).Live) := by
  have hmoved := congrArg ((writes i).advance s.node) hphase
  change _ = (Phase.answered (.ok (verdict.response (writes i).effective)),
    if verdict.rollsBack then
      rollbackLocalWrite s.node (writes i).effective.key existedBefore
    else s.node) at hmoved
  cases hrolls : verdict.rollsBack with
  | false =>
    rw [hrolls] at hmoved
    rw [liveResident_step_iff_of_keeps hlive hmoved (fun h => h)]
    constructor
    · intro _ _ h
      cases h
    · intro _ h
      apply hlive i
      rw [hphase]
      exact StoreContext.eq_acknowledged_of_live h
  | true =>
    have hfailed : ¬ (Phase.answered (.ok (verdict.response
        (writes i).effective))).Live := by
      intro h
      rw [StoreContext.eq_acknowledged_of_live h] at hrolls
      cases hrolls
    rw [hrolls] at hmoved
    cases existedBefore with
    | true =>
      rw [liveResident_step_iff_of_keeps hlive hmoved (fun h => h)]
      constructor
      · intro _ h
        cases h
      · intro _ h
        exact absurd h hfailed
    | false =>
      have hgone := Node.not_mem_after_removeFragment s.node (writes i).effective.key
      rw [liveResident_step_iff hmoved]
      constructor
      · intro h _ _ j hj hother
        have hresident := h.right j hj hother
        rw [← hkey] at hresident
        exact hgone hresident
      · intro h
        exact ⟨fun hown => absurd hown hfailed,
          fun j hj hother => absurd hother (h rfl rfl j hj)⟩

theorem step_liveResident_iff (hkey : (writes i).fragment.key = key)
    (hn : s.node.Invariant) (hlive : LiveResident key s) :
    LiveResident key (step writes s i) <-> SparesLive writes key s i := by
  have heffective : (writes i).effective.key = key := by
    unfold Write.effective
    rw [StoreContext.effective_key]
    exact hkey
  unfold SparesLive
  cases hphase : s.phase i with
  | waiting => exact waiting_liveResident_iff hlive hphase
  | accepted =>
    have hmoved := congrArg ((writes i).advance s.node) hphase
    rw [liveResident_step_iff_of_keeps hlive hmoved (fun h => h)]
    exact ⟨fun _ => trivial, fun _ h => h.elim⟩
  | tested existedBefore => exact tested_liveResident_iff heffective hn hlive hphase
  | stored existedBefore =>
    have hmoved := congrArg ((writes i).advance s.node) hphase
    rw [liveResident_step_iff_of_keeps hlive hmoved (fun h => h)]
    refine ⟨fun _ => trivial, fun _ _ => hlive i ?_⟩
    rw [hphase]
    trivial
  | settled existedBefore verdict =>
    rw [settled_liveResident_iff heffective hlive hphase]
    cases existedBefore with
    | false | true => simp
  | answered answer =>
    have hmoved := congrArg ((writes i).advance s.node) hphase
    rw [liveResident_step_iff_of_keeps hlive hmoved (fun h => h)]
    refine ⟨fun _ => trivial, fun _ h => hlive i ?_⟩
    rw [hphase]
    exact h

theorem step_invariant (hn : s.node.Invariant) (i : iota) :
    (step writes s i).node.Invariant :=
  (writes i).advance_invariant hn (s.phase i)

/-- The key of the live stores stays resident throughout a run exactly when every
step spares them. -/
theorem run_liveResident_iff (hkey : forall i, (writes i).fragment.key = key)
    {n : Node sigma tau pi} (hn : n.Invariant) (schedule : List iota) :
    Throughout (step writes) (LiveResident key) (start n) schedule <->
      Along (step writes) (SparesLive writes key) (start n) schedule := by
  have hstart : LiveResident key (start n : Writers iota sigma tau pi) := by
    intro i hlive
    exact hlive.elim
  exact throughout_iff_along (fun s => s.node.Invariant) (LiveResident key)
    (fun _ _ => True) (SparesLive writes key)
    (fun _ i h _ => step_invariant h i)
    (fun _ i h hlive _ => step_liveResident_iff (hkey i) h hlive) hn hstart
    (along_of_forall (fun _ _ => trivial) (start n) schedule)

/-- Stores that spare each other keep every write they acknowledge. -/
theorem run_keepsAcknowledged (hkey : forall i, (writes i).fragment.key = key)
    {n : Node sigma tau pi} (hn : n.Invariant) {schedule : List iota}
    (hspares : Along (step writes) (SparesLive writes key) (start n) schedule) :
    Throughout (step writes) (KeepsAcknowledged key) (start n) schedule := by
  have hlive := (run_liveResident_iff hkey hn schedule).mpr hspares
  intro completed hleading
  exact (hlive completed hleading).keepsAcknowledged

end Interleavings

/-!
# Two stores
-/

section TwoStores

attribute [local instance] InventoryHash.constant

def pairWrites (succeeds : Bool) : Write where
  fragment := firstCopy
  ctx := pairContext true (.result (if succeeds then 1 else 0) false succeeds)
  now := 1
  evictTime := 1

def sequential : List Bool :=
  [true, true, true, true, true, false, false, false, false, false]

def crossed : List Bool :=
  [true, true, false, false, true, false, true, true, false, false]

theorem sequential_keepsAcknowledged :
    Throughout (step pairWrites) (KeepsAcknowledged firstCopy.key)
      (start (Node.create (sharedConfig 100))) sequential := by
  have hkey : forall succeeds, (pairWrites succeeds).fragment.key = firstCopy.key :=
    fun _ => rfl
  apply run_keepsAcknowledged hkey (Node.create_invariant (sharedConfig 100))
  refine ⟨?_, trivial, ?_, trivial, ?_, ?_, trivial, ?_, trivial, trivial, trivial⟩
  · intro response hreject
    cases hreject
  · intro hdeclined
    exact absurd hdeclined.right (by decide)
  · intro hrolls
    cases hrolls
  · intro response hreject
    cases hreject
  · intro _
    decide

theorem crossed_not_keepsAcknowledged :
    ¬ Throughout (step pairWrites) (KeepsAcknowledged firstCopy.key)
      (start (Node.create (sharedConfig 100))) crossed := by
  intro h
  have hend := h crossed (List.prefix_refl _)
  have hgone : ¬ firstCopy.key ∈ (run (step pairWrites)
      (start (Node.create (sharedConfig 100))) crossed).node.fragments := by decide +kernel
  refine hgone (hend (fun succeeds => ?_) ?_)
  · cases succeeds with
    | true | false => exact ⟨_, rfl⟩
  · exact ⟨true, _, rfl, rfl⟩

end TwoStores

end Writers

end Transport
end Membrane
