import Mathlib.Algebra.Order.Field.Rat
import Mathlib.Data.Finset.Basic
import Mathlib.Order.WithBot
import Membrane.Foundation.Dict

/-!
# The tombstone table

Deleted hashes are kept with the time until which the deletion is remembered.  A hash
that is recorded again keeps the later of the two deadlines.  Deadlines are floats that
come from the network, and what is not a number is accepted as well.
-/

namespace Membrane
namespace Store

open Foundation

/-!
# Deadlines

A comparison with what is not a number is false.  Such a deadline is never reached, and the
maximum of two deadlines is the first one when either is not a number.
-/

/-- A float: a number or an infinity, or not a number. -/
inductive Deadline where
  | nan
  | instant (time : WithBot (WithTop ℚ))
  deriving DecidableEq

namespace Deadline

instance : Coe ℚ Deadline where
  coe time := .instant ((time : WithTop ℚ) : WithBot (WithTop ℚ))

def Compares (holds : WithBot (WithTop ℚ) -> WithBot (WithTop ℚ) -> Prop) :
    Deadline -> Deadline -> Prop
  | .instant a, .instant b => holds a b
  | _, _ => False

instance (holds : WithBot (WithTop ℚ) -> WithBot (WithTop ℚ) -> Prop) [DecidableRel holds]
    (a b : Deadline) : Decidable (Compares holds a b) :=
  match a, b with
  | .instant a, .instant b => inferInstanceAs (Decidable (holds a b))
  | .nan, _ | .instant _, .nan => inferInstanceAs (Decidable False)

instance : LT Deadline where
  lt := Compares (fun a b => a < b)

instance : LE Deadline where
  le := Compares (fun a b => a ≤ b)

instance (a b : Deadline) : Decidable (a < b) :=
  inferInstanceAs (Decidable (Compares _ a b))

instance (a b : Deadline) : Decidable (a ≤ b) :=
  inferInstanceAs (Decidable (Compares _ a b))

def max (existing offered : Deadline) : Deadline :=
  if existing < offered then offered else existing

variable {a b c : Deadline}

theorem instant_lt_instant {x y : WithBot (WithTop ℚ)} :
    instant x < instant y <-> x < y :=
  Iff.rfl

theorem not_lt_self (a : Deadline) : ¬ a < a := by
  cases a with
  | nan => exact fun h => h
  | instant x => exact fun h => lt_irrefl x h

theorem lt_of_compares (hab : a < b ∨ a ≤ b) (hbc : b < c) : a < c := by
  cases a with
  | nan => rcases hab with hab | hab <;> cases hab
  | instant x =>
    cases b with
    | nan => cases hbc
    | instant y =>
      cases c with
      | nan => cases hbc
      | instant z =>
        rcases hab with hab | hab
        · exact lt_trans (instant_lt_instant.mp hab) (instant_lt_instant.mp hbc)
        · exact lt_of_le_of_lt (show x ≤ y from hab) (instant_lt_instant.mp hbc)

theorem not_le_iff {now : ℚ} (hnumber : a ≠ nan) : ¬ a ≤ now <-> now < a := by
  cases a with
  | nan => exact absurd rfl hnumber
  | instant x =>
    show ¬ x ≤ ((now : WithTop ℚ) : WithBot (WithTop ℚ)) <-> _ < x
    exact not_le

theorem le_ofTime_mono {time now : ℚ} (h : a ≤ time) (htime : time ≤ now) : a ≤ now := by
  cases a with
  | nan => cases h
  | instant x =>
    have hx : x ≤ ((time : WithTop ℚ) : WithBot (WithTop ℚ)) := h
    exact hx.trans (WithBot.coe_le_coe.mpr (WithTop.coe_le_coe.mpr htime))

theorem max_cases (a b : Deadline) : max a b = a ∨ max a b = b := by
  unfold max
  split_ifs
  · exact Or.inr rfl
  · exact Or.inl rfl

theorem not_max_lt_right (a b : Deadline) : ¬ max a b < b := by
  unfold max
  split_ifs with h
  · exact not_lt_self b
  · exact h

theorem not_max_lt_of_left (h : ¬ a < c) (b : Deadline) : ¬ max a b < c := by
  unfold max
  split_ifs with hab
  · exact fun hbc => h (lt_of_compares (Or.inl hab) hbc)
  · exact h

end Deadline

/-!
# The table
-/

structure Tombstone where
  contentHash : String
  untilTime : Deadline
  nodes : Finset String
  deriving DecidableEq

structure TombstoneTable where
  tombstones : Dict String Tombstone
  deriving DecidableEq

namespace TombstoneTable

def create : TombstoneTable :=
  { tombstones := Dict.empty }

variable (t : TombstoneTable)

def record (contentHash : String) (untilTime : Deadline) (nodeIds : Finset String) :
    TombstoneTable :=
  { tombstones := t.tombstones.set contentHash
      (match t.tombstones.get? contentHash with
        | some existing =>
          { contentHash := contentHash
            untilTime := existing.untilTime.max untilTime
            nodes := existing.nodes ∪ nodeIds }
        | none =>
          { contentHash := contentHash, untilTime := untilTime, nodes := nodeIds }) }

def get (contentHash : String) (now : ℚ) : Option Tombstone × TombstoneTable :=
  match t.tombstones.get? contentHash with
  | none => (none, t)
  | some record =>
    if record.untilTime ≤ now then
      (none, { tombstones := t.tombstones.erase contentHash })
    else (some record, t)

def isActive (contentHash : String) (now : ℚ) : Bool :=
  (t.get contentHash now).1.isSome

def sweepExpired (now : ℚ) : List String × TombstoneTable :=
  ((t.tombstones.filter (fun _ record => decide (record.untilTime ≤ now))).keys,
    { tombstones := t.tombstones.filter (fun _ record => decide (¬ record.untilTime ≤ now)) })

variable {t}

variable {contentHash : String}

theorem isActive_iff {now : ℚ} :
    t.isActive contentHash now = true <->
      exists record, t.tombstones.get? contentHash = some record ∧
        ¬ record.untilTime ≤ now := by
  unfold isActive get
  cases t.tombstones.get? contentHash with
  | none => simp
  | some record =>
    simp only [Option.some.injEq, exists_eq_left']
    split_ifs with hexpired
    · simp [hexpired]
    · simp [hexpired]

/-- A tombstone for the hash does not end before the given deadline. -/
def Covers (t : TombstoneTable) (contentHash : String) (deadline : Deadline) : Prop :=
  exists record, t.tombstones.get? contentHash = some record ∧ ¬ record.untilTime < deadline

section

variable {deadline : Deadline}

theorem Covers.isActive {now : ℚ} (h : t.Covers contentHash deadline)
    (hnow : now < deadline) : t.isActive contentHash now = true := by
  rcases h with ⟨record, hrecord, hlast⟩
  refine isActive_iff.mpr ⟨record, hrecord, ?_⟩
  exact fun hexpired => hlast (Deadline.lt_of_compares (Or.inr hexpired) hnow)

theorem record_covers (contentHash : String) (untilTime : Deadline)
    (nodeIds : Finset String) :
    (t.record contentHash untilTime nodeIds).Covers contentHash untilTime := by
  unfold Covers record
  rw [Dict.get?_set_self]
  cases t.tombstones.get? contentHash with
  | none => exact ⟨_, rfl, Deadline.not_lt_self _⟩
  | some existing => exact ⟨_, rfl, Deadline.not_max_lt_right _ _⟩

theorem Covers.record (h : t.Covers contentHash deadline) (other : String)
    (untilTime : Deadline) (nodeIds : Finset String) :
    (t.record other untilTime nodeIds).Covers contentHash deadline := by
  rcases h with ⟨existing, hexisting, hlast⟩
  unfold Covers TombstoneTable.record
  by_cases hother : contentHash = other
  · subst hother
    rw [Dict.get?_set_self, hexisting]
    exact ⟨_, rfl, Deadline.not_max_lt_of_left hlast _⟩
  · rw [Dict.get?_set_of_ne _ _ hother]
    exact ⟨existing, hexisting, hlast⟩

end

end TombstoneTable

end Store
end Membrane
