import Mathlib.Logic.Basic

/-!
# Sequences of checks

A constructor that validates its arguments is a sequence of checks, each of
which raises its own message.  The sequence succeeds exactly when every check
does, which the two lemmas below turn into a conjunction one check at a time.
-/

namespace Membrane
namespace Foundation

def check (p : Prop) [Decidable p] (message : String) : Except String Unit :=
  if p then .ok () else .error message

@[simp] theorem check_eq_ok_iff (p : Prop) [Decidable p] (message : String) :
    check p message = .ok () <-> p := by
  unfold check
  by_cases h : p <;> simp [h]

@[simp] theorem bind_unit_eq_ok_iff {alpha : Type} (x : Except String Unit)
    (next : Except String alpha) (a : alpha) :
    (x >>= fun _ => next) = .ok a <-> x = .ok () ∧ next = .ok a := by
  cases x with
  | error message | ok _ => simp [bind, Except.bind]

end Foundation
end Membrane
