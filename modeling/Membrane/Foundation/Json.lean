import Mathlib.Data.List.Find
import Mathlib.Data.List.Infix
import Mathlib.Data.List.Nodup

/-!
# JSON values

What a JSON text decodes to, with dictionaries in the order of their members,
and the operations of the host language that programs apply to a value before
they know its shape: membership, subscription, iteration and conversion to an
integer or a text.  Floats are left abstract.
-/

namespace Membrane
namespace Foundation

inductive Json (phi : Type) where
  | null
  | bool (b : Bool)
  | int (n : Int)
  | float (x : phi)
  | str (s : String)
  | list (items : List (Json phi))
  | dict (members : List (String × Json phi))

inductive PyError where
  | typeError
  | indexError
  | overflowError
  | keyError (key : String)
  | valueError (message : String)
  deriving DecidableEq

/-- Conversions whose results depend on the formats of numbers and texts. -/
class PyText (phi : Type) where
  truncate : phi -> Int
  parseInt : String -> Option Int
  str : Json phi -> String
  str_str : forall s, str (.str s) = s

@[reducible] def PyText.whole : PyText Int where
  truncate x := x
  parseInt _ := none
  str
    | .str s => s
    | _ => ""
  str_str _ := rfl

theorem ok_bind {epsilon alpha beta : Type} (a : alpha) (next : alpha -> Except epsilon beta) :
    (.ok a >>= next) = next a := rfl

theorem bind_eq_ok_iff {epsilon alpha beta : Type} {x : Except epsilon alpha}
    {next : alpha -> Except epsilon beta} {b : beta} :
    (x >>= next) = .ok b <-> exists a, x = .ok a ∧ next a = .ok b := by
  cases x with
  | error e =>
    constructor
    · intro h
      cases h
    · intro h
      obtain ⟨a, ha, _⟩ := h
      cases ha
  | ok a =>
    constructor
    · intro h
      exact ⟨a, rfl, h⟩
    · intro h
      obtain ⟨other, hother, hnext⟩ := h
      cases hother
      exact hnext

theorem mapM_cons_eq_ok {epsilon alpha beta : Type} {f : alpha -> Except epsilon beta}
    {a : alpha} {rest : List alpha} {parts : List beta} (h : (a :: rest).mapM f = .ok parts) :
    exists b others, f a = .ok b ∧ rest.mapM f = .ok others ∧ parts = b :: others := by
  rw [List.mapM_cons] at h
  obtain ⟨b, hb, h⟩ := bind_eq_ok_iff.mp h
  obtain ⟨others, hothers, h⟩ := bind_eq_ok_iff.mp h
  cases h
  exact ⟨b, others, hb, hothers, rfl⟩

def KeySafe {alpha : Type} (x : Except PyError alpha) : Prop :=
  forall k, x ≠ .error (.keyError k)

theorem keySafe_ok {alpha : Type} (a : alpha) : KeySafe (.ok a) := by
  intro k h
  cases h

theorem keySafe_bind {alpha beta : Type} {x : Except PyError alpha}
    {next : alpha -> Except PyError beta} (hx : KeySafe x)
    (hnext : forall a, x = .ok a -> KeySafe (next a)) : KeySafe (x >>= next) := by
  cases x with
  | error e =>
    intro k h
    exact hx k (congrArg Except.error (Except.error.inj h))
  | ok a => exact hnext a rfl

theorem keySafe_valueError {alpha : Type} (x : Except String alpha) :
    KeySafe (x.mapError .valueError) := by
  intro k h
  cases x <;> cases h

class PyFloat (phi : Type) extends PyText phi where
  ofInt : Int -> Option phi
  parseFloat : String -> Option phi

namespace Json

variable {phi : Type}

def lookup (members : List (String × Json phi)) (k : String) : Option (Json phi) :=
  (members.find? (fun member => member.1 = k)).map Prod.snd

theorem lookup_of_perm {members others : List (String × Json phi)}
    (hperm : members.Perm others) (hnodup : (others.map Prod.fst).Nodup) (k : String) :
    lookup members k = lookup others k := by
  have honce : {member ∈ others | decide (member.1 = k)}.Subsingleton := by
    intro first hfirst second hsecond
    have hkeys : first.1 = second.1 := by
      rw [of_decide_eq_true hfirst.right, of_decide_eq_true hsecond.right]
    exact List.inj_on_of_nodup_map hnodup hfirst.left hsecond.left hkeys
  unfold lookup
  rw [List.find?_eq_find?_of_perm hperm.symm honce]

theorem lookup_filter_of_ne (members : List (String × Json phi)) {k other : String}
    (h : k ≠ other) :
    lookup (members.filter (fun member => member.1 ≠ other)) k = lookup members k := by
  unfold lookup
  rw [List.find?_filter]
  apply congrArg (Option.map Prod.snd)
  apply List.find?_congr
  intro member _
  by_cases hk : member.1 = k
  · simp [hk, h]
  · simp [hk]

def contains (k : String) : Json phi -> Except PyError Bool
  | .dict members => .ok (lookup members k).isSome
  | .list items => .ok (items.any (fun
      | .str s => s = k
      | _ => false))
  | .str s => .ok (k.toList <:+: s.toList)
  | _ => .error .typeError

def getItem (k : String) : Json phi -> Except PyError (Json phi)
  | .dict members =>
    match lookup members k with
    | some value => .ok value
    | none => .error (.keyError k)
  | _ => .error .typeError

/-- What a loop over the value passes. -/
def iter : Json phi -> Except PyError (List (Json phi))
  | .list items => .ok items
  | .str s => .ok (s.toList.map (fun c => .str (String.singleton c)))
  | .dict members => .ok (members.map (fun member => .str member.1))
  | _ => .error .typeError

def toInt [PyText phi] : Json phi -> Except PyError Int
  | .bool b => .ok (if b then 1 else 0)
  | .int n => .ok n
  | .float x => .ok (PyText.truncate x)
  | .str s =>
    match PyText.parseInt phi s with
    | some n => .ok n
    | none => .error (.valueError ("invalid literal for int() with base 10: '" ++ s ++ "'"))
  | _ => .error .typeError

def toFloat [PyFloat phi] : Json phi -> Except PyError phi
  | .float x => .ok x
  | .int n =>
    match PyFloat.ofInt n with
    | some x => .ok x
    | none => .error .overflowError
  | .bool b =>
    match PyFloat.ofInt (if b then 1 else 0) with
    | some x => .ok x
    | none => .error .overflowError
  | .str s =>
    match PyFloat.parseFloat s with
    | some x => .ok x
    | none => .error (.valueError ("could not convert string to float: '" ++ s ++ "'"))
  | _ => .error .typeError

def toInts [PyText phi] : List (Json phi) -> Except PyError (List Int)
  | [] => .ok []
  | value :: rest => do
      let n <- value.toInt
      let others <- toInts rest
      return n :: others

/-!
# Operations without key errors
-/

theorem contains_keySafe (k : String) (value : Json phi) : KeySafe (value.contains k) := by
  intro other h
  cases value <;> cases h

theorem getItem_keySafe {k : String} {value : Json phi} (h : value.contains k = .ok true) :
    KeySafe (value.getItem k) := by
  cases value with
  | dict members =>
    have hsome : (lookup members k).isSome = true := Except.ok.inj h
    rcases Option.isSome_iff_exists.mp hsome with ⟨found, hfound⟩
    intro other herror
    rw [getItem, hfound] at herror
    cases herror
  | _ =>
    intro other herror
    cases herror

theorem iter_keySafe (value : Json phi) : KeySafe value.iter := by
  intro k h
  cases value <;> cases h

theorem toInt_keySafe [PyText phi] (value : Json phi) : KeySafe value.toInt := by
  intro k h
  cases value with
  | str s =>
    rw [toInt] at h
    split at h <;> cases h
  | _ => cases h

theorem toFloat_keySafe [PyFloat phi] (value : Json phi) : KeySafe value.toFloat := by
  intro k h
  cases value with
  | str s | int n | bool b =>
    rw [toFloat] at h
    split at h <;> cases h
  | _ => cases h

theorem toInts_keySafe [PyText phi] (values : List (Json phi)) : KeySafe (toInts values) := by
  induction values with
  | nil => exact keySafe_ok []
  | cons value rest ih =>
    apply keySafe_bind (toInt_keySafe value)
    intro n _
    apply keySafe_bind ih
    intro others _
    exact keySafe_ok (n :: others)

theorem toInts_map_int [PyText phi] (numbers : List Int) :
    toInts (numbers.map (fun n => (.int n : Json phi))) = .ok numbers := by
  induction numbers with
  | nil => rfl
  | cons n rest ih =>
    rw [List.map_cons, toInts, ih]
    rfl

end Json
end Foundation
end Membrane
