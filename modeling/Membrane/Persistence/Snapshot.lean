import Membrane.Foundation.Json
import Membrane.Store.ContentStore

/-!
# Snapshots at the start

A start reads the snapshot file of its node and decides by its epoch whether to adopt it.
A text that is no JSON is skipped; the other failures of the decoding are not caught.
-/

namespace Membrane
namespace Persistence

open Foundation Store

inductive LoadsError where
  | jsonDecodeError
  | recursionError
  | valueError

/-- The JSON decoder of texts.  A float need not be a number that converts to an integer. -/
class JsonLoads (phi : Type) extends PyText phi where
  loads : String -> Except LoadsError (Json phi)
  floatToInt : phi -> Except PyError Int
  equalsInt : phi -> Int -> Bool

inductive StartError where
  | unicodeDecodeError
  | undecodable (error : LoadsError)
  | attributeError
  | raised (error : PyError)

inductive SnapshotFile where
  | absent
  | unreadable
  | content (data : Bytes)

abbrev Payload (phi : Type) := List (String × Json phi)

def snapshotSchemaVersion : Int := 2

variable {phi : Type} [JsonLoads phi]

/-- Numbers of either kind may be equal to the version. -/
def Payload.isCurrent (payload : Payload phi) : Bool :=
  match Json.lookup payload "schema_version" with
  | some (.int n) => n = snapshotSchemaVersion
  | some (.float x) => JsonLoads.equalsInt x snapshotSchemaVersion
  | _ => false

/-- Only a dictionary has the method that reads its version. -/
def SnapshotFile.load : SnapshotFile -> Except StartError (Option (Payload phi))
  | .absent => .ok none
  | .unreadable => .ok none
  | .content data =>
    match String.fromUTF8? ⟨data.toArray⟩ with
    | none => .error .unicodeDecodeError
    | some text =>
      match JsonLoads.loads text with
      | .error .jsonDecodeError => .ok none
      | .error e => .error (.undecodable e)
      | .ok (.dict payload) => .ok (if Payload.isCurrent payload then some payload else none)
      | .ok _ => .error .attributeError

def epochOf : Json phi -> Except PyError Int
  | .float x => JsonLoads.floatToInt x
  | value => value.toInt

def accept (current : Int) : Option (Json phi) -> Except StartError Bool
  | none => .ok false
  | some .null => .ok false
  | some persisted =>
    ((epochOf persisted).map (fun epoch => decide (current - 1 ≤ epoch))).mapError .raised

def restoreState (phi : Type) [JsonLoads phi] (snapshot : Option SnapshotFile) (current : Int) :
    Except StartError (Option Bool) :=
  match snapshot with
  | none => .ok none
  | some file =>
    match (file.load : Except StartError (Option (Payload phi))) with
    | .error e => .error e
    | .ok none => .ok none
    | .ok (some payload) => (accept current (Json.lookup payload "cluster_epoch")).map some

def ReadableEpoch : Option (Json phi) -> Prop
  | some (.float x) => exists n, JsonLoads.floatToInt x = .ok n
  | some (.str s) => (PyText.parseInt phi s).isSome = true
  | some (.list _) => False
  | some (.dict _) => False
  | _ => True

/-- A UTF-8 text that is no JSON, or a dictionary whose epoch is readable if its version is
the current one. -/
def Readable (phi : Type) [JsonLoads phi] (data : Bytes) : Prop :=
  exists text, String.fromUTF8? ⟨data.toArray⟩ = some text ∧
    ((JsonLoads.loads text : Except LoadsError (Json phi)) = .error .jsonDecodeError ∨
      exists payload : Payload phi, JsonLoads.loads text = .ok (.dict payload) ∧
        (payload.isCurrent = true -> ReadableEpoch (Json.lookup payload "cluster_epoch")))

theorem accept_ok_iff (current : Int) (persisted : Option (Json phi)) :
    (exists decision, (accept current persisted).map some = .ok decision) <->
      ReadableEpoch persisted := by
  cases persisted with
  | none => exact iff_of_true ⟨_, rfl⟩ trivial
  | some value =>
    cases value with
    | float x =>
      simp only [accept, epochOf, ReadableEpoch]
      cases JsonLoads.floatToInt x with
      | error e => simp [Except.map, Except.mapError]
      | ok n => exact iff_of_true ⟨_, rfl⟩ ⟨n, rfl⟩
    | str s =>
      simp only [accept, epochOf, Json.toInt, ReadableEpoch]
      cases PyText.parseInt phi s with
      | none => simp [Except.map, Except.mapError]
      | some n => exact iff_of_true ⟨_, rfl⟩ rfl
    | list items | dict members => exact iff_of_false (by rintro ⟨_, ⟨⟩⟩) id
    | _ => exact iff_of_true ⟨_, rfl⟩ trivial

/-- A start takes any content of the snapshot file without raising exactly when the content
is readable. -/
theorem restoreState_ok_iff (data : Bytes) (current : Int) :
    (exists loaded : Option (Payload phi), (SnapshotFile.content data).load = .ok loaded ∧
        forall payload, loaded = some payload -> payload.isCurrent = true) ∧
        (exists decision, restoreState phi (some (.content data)) current = .ok decision) <->
      Readable phi data := by
  simp only [Readable, restoreState, SnapshotFile.load]
  cases String.fromUTF8? ⟨data.toArray⟩ with
  | none => simp
  | some text =>
    simp only [Option.some.injEq, exists_eq_left']
    cases (JsonLoads.loads text : Except LoadsError (Json phi)) with
    | error e => cases e <;> simp
    | ok value =>
      cases value with
      | dict payload =>
        cases hcurrent : Payload.isCurrent payload with
        | false => simp [hcurrent]
        | true => simp [hcurrent, accept_ok_iff]
      | _ => simp

@[reducible] def JsonLoads.emptyList : JsonLoads Int where
  toPyText := PyText.whole
  loads text := if text = "[]" then .ok (.list []) else .error .jsonDecodeError
  floatToInt x := .ok x
  equalsInt x n := x = n

attribute [local instance] JsonLoads.emptyList

/-- A byte that begins no character, and a JSON text that is no dictionary. -/
theorem corrupt_snapshot_raises :
    (SnapshotFile.content [0xff]).load = (.error .unicodeDecodeError :
        Except StartError (Option (Payload Int))) ∧
      (SnapshotFile.content [0x5b, 0x5d]).load = (.error .attributeError :
        Except StartError (Option (Payload Int))) ∧
      restoreState Int (some (.content [0x5b, 0x5d])) 0 = .error .attributeError :=
  ⟨rfl, rfl, rfl⟩

end Persistence
end Membrane
