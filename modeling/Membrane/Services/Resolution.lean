import Mathlib.Logic.Equiv.List
import Mathlib.Data.List.Find
import Membrane.Serving.TenantView
import Membrane.Services.Lookups

/-!
# Reconstruction among other requests

A reconstruction first searches the index, with the visibility tests of its caller, and
then resolves each fragment it found to the copy that the caller reads.  Other requests
store and remove fragments between these steps.  A fragment without a readable copy is
answered as it was found.
-/

namespace Membrane
namespace Services

open Foundation Data Store Serving Index

def removedKeys {sigma tau pi : Type} (before after : Node sigma tau pi) : List String :=
  (after.journal.drop before.journal.length).filterMap fun
    | NodeEvent.removed contentHash => some contentHash
    | _ => none

namespace MemoryService

variable {sigma tau pi : Type} [InventoryHash] [ContentStore sigma] [LowerTier tau]
  [EvictionPolicy pi]

/-- A call that writes to the node tells the service about every removed key. -/
def mutate (m : MemoryService sigma tau pi) (mutation : Mutation) :
    MemoryService sigma tau pi :=
  (removedKeys m.node (m.node.mutate mutation)).foldl onRemoved
    { m with node := m.node.mutate mutation }

end MemoryService

inductive Progress where
  | notStarted
  | resolving (pending answered : List Fragment)
  | failed (error : ServiceError)
  deriving DecidableEq

inductive RequestStep where
  | other (mutation : Mutation)
  | search
  | resolve

structure ReconstructRequest where
  tokens : List Int
  modelId : String
  caller : Caller
  prefill : Bool
  clock : Nat -> ℚ

structure InFlight (sigma tau pi : Type) where
  service : MemoryService sigma tau pi
  progress : Progress

def OwnOrPublic (caller : Caller) (f : Fragment) : Prop :=
  f.tenantId = caller.tenant ∨ f.tenantId = defaultTenant

instance (caller : Caller) (f : Fragment) : Decidable (OwnOrPublic caller f) :=
  inferInstanceAs (Decidable (f.tenantId = caller.tenant ∨ f.tenantId = defaultTenant))

theorem ownCopy_ownOrPublic {sigma tau pi : Type} {n : Node sigma tau pi} {f copy : Fragment}
    {caller : Caller} (hcaller : caller.tenant ≠ "")
    (hadmin : hasAdminScope caller.scopes = false)
    (h : ownCopy n f caller = some copy) : OwnOrPublic caller copy := by
  unfold ownCopy at h
  split at h
  · cases h
  · exact Node.canRead_tenant hcaller hadmin (Option.filter_eq_some_iff.mp h).right

namespace ReconstructRequest

def resolved {sigma tau pi : Type} (q : ReconstructRequest) (n : Node sigma tau pi)
    (f : Fragment) : Fragment :=
  (ownCopy n f q.caller).getD f

theorem resolved_ownOrPublic_iff {sigma tau pi : Type} {q : ReconstructRequest}
    (hcaller : q.caller.tenant ≠ "") (hadmin : hasAdminScope q.caller.scopes = false)
    (n : Node sigma tau pi) (f : Fragment) :
    OwnOrPublic q.caller (q.resolved n f) <->
      OwnOrPublic q.caller f ∨ (ownCopy n f q.caller).isSome := by
  unfold resolved
  cases hcopy : ownCopy n f q.caller with
  | none => simp
  | some copy =>
    have hown := ownCopy_ownOrPublic hcaller hadmin hcopy
    simp [hown]

variable {sigma tau pi : Type} [InventoryHash] [ContentStore sigma] [LowerTier tau]
  [EvictionPolicy pi] [TokenHash]

def searched (q : ReconstructRequest) (m : MemoryService sigma tau pi) :
    InFlight sigma tau pi :=
  let filling := m.rebuild q.tokens q.modelId q.caller q.prefill q.clock
  { service := { m with node := filling.state.1 }
    progress :=
      match filling.result with
      | .error e => Progress.failed e
      | .ok result => Progress.resolving result.fragments [] }

def step (q : ReconstructRequest) (s : InFlight sigma tau pi) :
    RequestStep -> InFlight sigma tau pi
  | .other mutation => { s with service := s.service.mutate mutation }
  | .search =>
    match s.progress with
    | .notStarted => q.searched s.service
    | _ => s
  | .resolve =>
    match s.progress with
    | .resolving (f :: pending) answered =>
      { s with
        progress := .resolving pending (answered ++ [q.resolved s.service.node f]) }
    | _ => s

def start (m : MemoryService sigma tau pi) : InFlight sigma tau pi :=
  { service := m, progress := .notStarted }

def AnswersOwn (q : ReconstructRequest) (s : InFlight sigma tau pi) : Prop :=
  match s.progress with
  | .resolving _ answered => forall f, f ∈ answered -> OwnOrPublic q.caller f
  | _ => True

/-- A fragment of another tenant is resolved while the caller can read a resident copy of
its content. -/
def CopyResident (q : ReconstructRequest) (s : InFlight sigma tau pi) :
    RequestStep -> Prop
  | .resolve =>
    match s.progress with
    | .resolving (f :: _) _ =>
      OwnOrPublic q.caller f ∨ (ownCopy s.service.node f q.caller).isSome
    | _ => True
  | _ => True

theorem searched_answersOwn (q : ReconstructRequest) (m : MemoryService sigma tau pi) :
    q.AnswersOwn (q.searched m) := by
  unfold searched AnswersOwn
  cases hresult : (m.rebuild q.tokens q.modelId q.caller q.prefill q.clock).result with
  | error e => simp only [hresult]
  | ok result =>
    simp only [hresult]
    exact fun f hf => absurd hf List.not_mem_nil

theorem answersOwn_step_iff {q : ReconstructRequest} (hcaller : q.caller.tenant ≠ "")
    (hadmin : hasAdminScope q.caller.scopes = false) {s : InFlight sigma tau pi}
    (hs : q.AnswersOwn s) (action : RequestStep) :
    q.AnswersOwn (q.step s action) <-> q.CopyResident s action := by
  rcases s with ⟨m, progress⟩
  cases action with
  | other mutation => exact ⟨fun _ => trivial, fun _ => hs⟩
  | search =>
    refine ⟨fun _ => trivial, fun _ => ?_⟩
    cases progress with
    | notStarted => exact q.searched_answersOwn m
    | resolving pending answered | failed e => exact hs
  | resolve =>
    cases progress with
    | notStarted | failed e => exact ⟨fun _ => trivial, fun _ => hs⟩
    | resolving pending answered =>
      cases pending with
      | nil => exact ⟨fun _ => trivial, fun _ => hs⟩
      | cons f pending =>
        show (forall g, g ∈ answered ++ [q.resolved m.node f] ->
          OwnOrPublic q.caller g) <->
            OwnOrPublic q.caller f ∨ (ownCopy m.node f q.caller).isSome
        rw [← resolved_ownOrPublic_iff hcaller hadmin]
        constructor
        · intro hall
          exact hall _ (List.mem_append_right _ List.mem_cons_self)
        · intro hresolved g hg
          rcases List.mem_append.mp hg with hg | hg
          · exact hs g hg
          · rw [List.mem_singleton.mp hg]
            exact hresolved

/-- Among other requests, a caller of a tenant is answered with own and public fragments
only, exactly when every found fragment of another tenant is resolved while a readable
copy of it is resident. -/
theorem run_answersOwn_iff {q : ReconstructRequest} (hcaller : q.caller.tenant ≠ "")
    (hadmin : hasAdminScope q.caller.scopes = false) (m : MemoryService sigma tau pi)
    (actions : List RequestStep) :
    Throughout q.step q.AnswersOwn (start m) actions <->
      Along q.step q.CopyResident (start m) actions :=
  throughout_iff_along (fun _ => True) q.AnswersOwn (fun _ _ => True) q.CopyResident
    (fun _ _ _ _ => trivial)
    (fun _ action _ hs _ => answersOwn_step_iff hcaller hadmin hs action)
    trivial trivial (along_of_forall (fun _ _ => trivial) _ actions)

end ReconstructRequest

/-!
## A copy that stays, and one that another tenant's store pushes out
-/

section Samples

attribute [local instance] InventoryHash.constant TokenHash.letters

def ownWindow : Fragment :=
  Fragment.window "acme" "a" "model" 0 0 validateTenantId_acme nonempty_a

def sharedWindow : MemoryService InProcessBytes Empty WeightedLRU :=
  MemoryService.create
    (((Node.create (Config.default "n0" 20)).store ownWindow true
      (Node.member "acme") 0 0).2.store otherWindow true (Node.member "b") (1 / 2) (1 / 2)).2
    none none 4

def asksForWindow : ReconstructRequest :=
  { tokens := [0]
    modelId := "model"
    caller := Node.member "acme"
    prefill := false
    clock := fun _ => 1 }

def storesMore : RequestStep :=
  RequestStep.other (Mutation.store strayWindow true (Node.member "b") 1 (5 / 4))

theorem residentCopy_answersOwn :
    Throughout asksForWindow.step asksForWindow.AnswersOwn
      (ReconstructRequest.start sharedWindow) [RequestStep.search, RequestStep.resolve] :=
  (ReconstructRequest.run_answersOwn_iff (by decide) rfl sharedWindow
    [RequestStep.search, RequestStep.resolve]).mpr
      ⟨trivial, Or.inr (by decide +kernel), trivial⟩

/-- The search finds the other tenant's fragment through the caller's copy, the store
evicts that copy, and the fragment is answered as it was found. -/
theorem removedCopy_not_answersOwn :
    ¬ Throughout asksForWindow.step asksForWindow.AnswersOwn
      (ReconstructRequest.start sharedWindow)
      [RequestStep.search, storesMore, RequestStep.resolve] := by
  intro h
  have hlast := h [RequestStep.search, storesMore, RequestStep.resolve] List.prefix_rfl
  have hanswered : (run asksForWindow.step (ReconstructRequest.start sharedWindow)
      [RequestStep.search, storesMore, RequestStep.resolve]).progress =
        Progress.resolving [] [otherWindow] := by
    decide +kernel
  unfold ReconstructRequest.AnswersOwn at hlast
  rw [hanswered] at hlast
  have hown : ¬ OwnOrPublic asksForWindow.caller otherWindow := by
    decide
  exact hown (hlast otherWindow List.mem_cons_self)

end Samples

end Services
end Membrane
