import Mathlib.Data.List.Infix

/-!
# Runs of a transition function

A component that handles one operation after another is a transition function
on its states.  A run is the fold of the function over a list of operations.
The rules below turn what one step preserves into what holds in every state a
run passes through.
-/

namespace Membrane
namespace Foundation

variable {sigma operation : Type} (step : sigma -> operation -> sigma)

def run (s : sigma) (operations : List operation) : sigma :=
  operations.foldl step s

/-- Every step of the run is allowed in the state in which it is taken. -/
def Along (allowed : sigma -> operation -> Prop) :
    sigma -> List operation -> Prop
  | _, [] => True
  | s, first :: rest => allowed s first ∧ Along allowed (step s first) rest

/-- A property holds in the first state of a run and after each of its steps. -/
def Throughout (holds : sigma -> Prop) (s : sigma) (operations : List operation) :
    Prop :=
  forall completed, completed <+: operations -> holds (run step s completed)

variable {step}

variable {s : sigma} {allowed : sigma -> operation -> Prop} {operations : List operation}

theorem throughout_nil {holds : sigma -> Prop} : Throughout step holds s [] <-> holds s := by
  constructor
  · intro h
    exact h [] (List.nil_prefix)
  · intro h completed hleading
    rw [List.prefix_nil.mp hleading]
    exact h

theorem throughout_cons {holds : sigma -> Prop} {first : operation} {rest : List operation} :
    Throughout step holds s (first :: rest) <->
      holds s ∧ Throughout step holds (step s first) rest := by
  constructor
  · intro h
    constructor
    · exact h [] (List.nil_prefix)
    · intro completed hleading
      exact h (first :: completed) (List.cons_prefix_cons.mpr ⟨rfl, hleading⟩)
  · intro h completed hleading
    cases completed with
    | nil => exact h.left
    | cons head tail =>
      have hparts := List.cons_prefix_cons.mp hleading
      rw [hparts.left]
      exact h.right tail hparts.right

/-!
# The invariant rule
-/

section

variable (holds : sigma -> Prop)
  (hstep : forall s first, holds s -> allowed s first -> holds (step s first)) (hstart : holds s)
  (halong : Along step allowed s operations)

include holds hstep hstart halong

theorem throughout_of_along :
    Throughout step holds s operations := by
  induction operations generalizing s with
  | nil => exact throughout_nil.mpr hstart
  | cons first rest ih =>
    have hnext := ih (hstep s first hstart halong.left) halong.right
    exact throughout_cons.mpr ⟨hstart, hnext⟩

theorem run_of_along :
    holds (run step s operations) :=
  throughout_of_along holds hstep hstart halong operations (List.prefix_refl operations)

end

/-- A run of allowed steps meets what each of them has by an invariant. -/
theorem along_of_along (invariant : sigma -> Prop) {implied : sigma -> operation -> Prop}
    (hstep : forall s first, invariant s -> allowed s first -> invariant (step s first))
    (himplied : forall s first, invariant s -> allowed s first -> implied s first)
    (hstart : invariant s) (halong : Along step allowed s operations) :
    Along step implied s operations := by
  induction operations generalizing s with
  | nil => trivial
  | cons first rest ih =>
    exact ⟨himplied s first hstart halong.left,
      ih (hstep s first hstart halong.left) halong.right⟩

theorem along_of_mem (h : forall s first, first ∈ operations -> allowed s first) (s : sigma) :
    Along step allowed s operations := by
  induction operations generalizing s with
  | nil => trivial
  | cons first rest ih =>
    exact ⟨h s first List.mem_cons_self,
      ih (fun s other hother => h s other (List.mem_cons_of_mem first hother))
        (step s first)⟩

theorem along_of_forall (h : forall s first, allowed s first) (s : sigma)
    (operations : List operation) : Along step allowed s operations :=
  along_of_mem (fun s first _ => h s first) s

theorem Along.and {others : sigma -> operation -> Prop} (h : Along step allowed s operations)
    (h' : Along step others s operations) :
    Along step (fun s first => allowed s first ∧ others s first) s operations := by
  induction operations generalizing s with
  | nil => trivial
  | cons first rest ih => exact ⟨⟨h.left, h'.left⟩, ih h.right h'.right⟩

theorem throughout_of_step (holds : sigma -> Prop)
    (hstep : forall s first, holds s -> holds (step s first)) (hstart : holds s)
    (operations : List operation) : Throughout step holds s operations := by
  have halong : Along step (fun _ _ => True) s operations :=
    along_of_forall (fun _ _ => trivial) s operations
  exact throughout_of_along holds (fun s first hs _ => hstep s first hs) hstart halong

/-!
# The exact rule

When a step keeps a property exactly under some condition, the property holds
throughout a run if and only if every step of the run meets the condition.  An
invariant that all steps keep may be used to show this of one step.
-/

theorem throughout_iff_along (invariant holds : sigma -> Prop)
    (assumed exact : sigma -> operation -> Prop)
    (hinvariant : forall s first, invariant s -> assumed s first ->
      invariant (step s first))
    (hexact : forall s first, invariant s -> holds s -> assumed s first ->
      (holds (step s first) <-> exact s first))
    (hinv : invariant s) (hholds : holds s) (hassumed : Along step assumed s operations) :
    Throughout step holds s operations <-> Along step exact s operations := by
  induction operations generalizing s with
  | nil => exact ⟨fun _ => trivial, fun _ => throughout_nil.mpr hholds⟩
  | cons first rest ih =>
    have hkept := hinvariant s first hinv hassumed.left
    have hone := hexact s first hinv hholds hassumed.left
    rw [throughout_cons]
    constructor
    · intro h
      have hnext : holds (step s first) := h.right [] (List.nil_prefix)
      exact ⟨hone.mp hnext, (ih hkept hnext hassumed.right).mp h.right⟩
    · intro h
      have hnext : holds (step s first) := hone.mpr h.left
      exact ⟨hholds, (ih hkept hnext hassumed.right).mpr h.right⟩

/-- Here steps outside the condition end without the property, and need not keep the invariant. -/
theorem throughout_iff_along_of_kept (invariant holds : sigma -> Prop)
    (exact : sigma -> operation -> Prop)
    (hkept : forall s first, invariant s -> exact s first -> invariant (step s first))
    (hholds : forall s, invariant s -> holds s)
    (hfails : forall s first, invariant s -> holds (step s first) -> exact s first)
    (hinv : invariant s) :
    Throughout step holds s operations <-> Along step exact s operations := by
  constructor
  · intro h
    induction operations generalizing s with
    | nil => trivial
    | cons first rest ih =>
      rw [throughout_cons] at h
      have hfirst := hfails s first hinv (h.right [] List.nil_prefix)
      exact ⟨hfirst, ih (hkept s first hinv hfirst) h.right⟩
  · intro h operations' hle
    exact hholds _ (throughout_of_along invariant hkept hinv h operations' hle)

/-!
# The origin of a property
-/

theorem run_append (s : sigma) (operations others : List operation) :
    run step s (operations ++ others) = run step (run step s operations) others :=
  List.foldl_append

theorem along_append {others : List operation} :
    Along step allowed s (operations ++ others) <->
      Along step allowed s operations ∧
        Along step allowed (run step s operations) others := by
  induction operations generalizing s with
  | nil => exact ⟨fun h => ⟨trivial, h⟩, fun h => h.right⟩
  | cons first rest ih =>
    constructor
    · intro h
      have hrest := ih.mp h.right
      exact ⟨⟨h.left, hrest.left⟩, hrest.right⟩
    · intro h
      exact ⟨h.left.left, ih.mpr ⟨h.left.right, h.right⟩⟩

theorem along_iff_getElem? :
    Along step allowed s operations <-> forall (j : Nat) (o : operation),
      operations[j]? = some o -> allowed (run step s (operations.take j)) o := by
  induction operations generalizing s with
  | nil => exact ⟨fun _ _ _ h => absurd h (by simp), fun _ => trivial⟩
  | cons first rest ih =>
    constructor
    · intro h j o ho
      cases j with
      | zero =>
        rw [← Option.some.inj ho]
        exact h.left
      | succ j =>
        exact ih.mp h.right j o ho
    · intro h
      refine ⟨h 0 first rfl, ih.mpr ?_⟩
      intro j o ho
      exact h (j + 1) o ho

end Foundation
end Membrane
