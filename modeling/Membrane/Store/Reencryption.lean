import Membrane.Foundation.Transition

/-!
# Re-encryption

After a rotation of the master key a pass rewrites the blobs of the older versions.  A
file opens under the one version it was written with, and the key provider keeps every
version.  The pass holds no lock between its reads and its write.
-/

namespace Membrane
namespace Store

open Foundation

/-- What the pass does next with the keys it has left. -/
inductive ReencryptionPass (rho : Type) where
  | visit (keys : List String)
  | reread (key : String) (rest : List String)
  | rewrite (key : String) (data : rho) (rest : List String)

/-- The files of a store on the disk, each with the version of its key and its data. -/
structure VersionedBlobs (rho : Type) where
  activeVersion : Nat
  files : String -> Option (Nat × rho)
  reencryptAll : ReencryptionPass rho

inductive BlobEvent (rho : Type) where
  | put (key : String) (data : rho)
  | delete (key : String)
  | start (keys : List String)
  | pass

def BlobEvent.key? {rho : Type} : BlobEvent rho -> Option String
  | put key _ => some key
  | delete key => some key
  | start _ => none
  | pass => none

namespace VersionedBlobs

variable {rho : Type}

def get (s : VersionedBlobs rho) (key : String) : Option rho :=
  (s.files key).map Prod.snd

def replace (s : VersionedBlobs rho) (key : String) (file : Option (Nat × rho)) :
    VersionedBlobs rho :=
  { s with files := Function.update s.files key file }

def put (s : VersionedBlobs rho) (key : String) (data : rho) : VersionedBlobs rho :=
  s.replace key (some (s.activeVersion, data))

def delete (s : VersionedBlobs rho) (key : String) : VersionedBlobs rho :=
  s.replace key none

def passStep (s : VersionedBlobs rho) : VersionedBlobs rho :=
  match s.reencryptAll with
  | .visit [] => s
  | .visit (key :: rest) =>
    match s.files key with
    | none => { s with reencryptAll := .visit rest }
    | some blob =>
      if blob.1 = s.activeVersion then { s with reencryptAll := .visit rest }
      else { s with reencryptAll := .reread key rest }
  | .reread key rest =>
    match s.get key with
    | none => { s with reencryptAll := .visit rest }
    | some data => { s with reencryptAll := .rewrite key data rest }
  | .rewrite key data rest => { s.put key data with reencryptAll := .visit rest }

def step (s : VersionedBlobs rho) : BlobEvent rho -> VersionedBlobs rho
  | .put key data => s.put key data
  | .delete key => s.delete key
  | .start keys => { s with reencryptAll := .visit keys }
  | .pass => s.passStep

def record (stored : String -> Option rho) : BlobEvent rho -> String -> Option rho
  | .put key data => Function.update stored key (some data)
  | .delete key => Function.update stored key none
  | .start _ => stored
  | .pass => stored

/-- The event leaves alone the key whose data the pass has read and not written. -/
def LeavesRead (s : VersionedBlobs rho) (event : BlobEvent rho) : Prop :=
  forall key data rest, s.reencryptAll = .rewrite key data rest -> event.key? ≠ some key

/-- What the pass is about to write is what is stored. -/
def Current (s : VersionedBlobs rho) : Prop :=
  forall key data rest, s.reencryptAll = .rewrite key data rest -> s.get key = some data

variable {s : VersionedBlobs rho}

theorem get_replace (key : String) (file : Option (Nat × rho)) :
    (s.replace key file).get = Function.update s.get key (file.map Prod.snd) :=
  Function.comp_update (Option.map Prod.snd) s.files key file

theorem Current.replace (h : s.Current) {key : String} (file : Option (Nat × rho))
    (hleaves : forall other data rest, s.reencryptAll = .rewrite other data rest ->
      some key ≠ some other) : (s.replace key file).Current := by
  intro other data rest hpass
  have hother : other ≠ key := fun heq => hleaves other data rest hpass (congrArg some heq.symm)
  rw [get_replace, Function.update_of_ne hother]
  exact h other data rest hpass

theorem passStep_spec (h : s.Current) : s.passStep.Current ∧ s.passStep.get = s.get := by
  have hmoved (next : ReencryptionPass rho) (hnext : forall key data rest,
      next = .rewrite key data rest -> s.get key = some data) :
      Current { s with reencryptAll := next } ∧ get { s with reencryptAll := next } = s.get :=
    ⟨hnext, rfl⟩
  unfold passStep
  split
  · exact ⟨h, rfl⟩
  · split
    · exact hmoved _ nofun
    · split_ifs
      · exact hmoved _ nofun
      · exact hmoved _ nofun
  · split
    · exact hmoved _ nofun
    · rename_i hread
      refine hmoved _ ?_
      rintro key data rest ⟨⟩
      exact hread
  · rename_i key data rest hpass
    refine ⟨nofun, (get_replace key (some (s.activeVersion, data))).trans ?_⟩
    rw [Option.map_some, ← h key data rest hpass, Function.update_eq_self]

theorem step_spec (h : s.Current) {event : BlobEvent rho} (hleaves : s.LeavesRead event) :
    (s.step event).Current ∧ (s.step event).get = record s.get event := by
  cases event with
  | put key data => exact ⟨h.replace _ hleaves, get_replace key _⟩
  | delete key => exact ⟨h.replace none hleaves, get_replace key none⟩
  | start keys => exact ⟨nofun, rfl⟩
  | pass => exact passStep_spec h

/-- The pass is invisible when no put or delete lands between its read and its write. -/
theorem run_reencrypt_invisible (s : VersionedBlobs rho) (hidle : s.reencryptAll = .visit [])
    (events : List (BlobEvent rho)) (hleaves : Along step LeavesRead s events) :
    (run step s events).get = run record s.get events := by
  have hcurrent : s.Current := by
    intro key data rest hpass
    rw [hidle] at hpass
    nomatch hpass
  clear hidle
  induction events generalizing s with
  | nil => rfl
  | cons event rest ih =>
    have hstep := step_spec hcurrent hleaves.left
    exact (ih (s.step event) hleaves.right hstep.left).trans (by rw [hstep.right]; rfl)

def rotated : VersionedBlobs Nat :=
  { activeVersion := 2, files := fun _ => some (1, 10), reencryptAll := .visit [] }

theorem run_reencrypt_invisible_of_late :
    (run step rotated [.start ["blob"], .pass, .pass, .pass, .put "blob" 11]).get =
      run record rotated.get [.start ["blob"], .pass, .pass, .pass, .put "blob" 11] :=
  run_reencrypt_invisible rotated rfl _
    ⟨nofun, nofun, nofun, fun _ _ _ _ => nofun, nofun, trivial⟩

def overtaken : List (BlobEvent Nat) :=
  [.start ["blob"], .pass, .pass, .put "blob" 11, .pass]

theorem run_reencrypt_undoes_put :
    (run step rotated overtaken).reencryptAll = .visit [] ∧
      (run step rotated overtaken).get "blob" ≠ run record rotated.get overtaken "blob" :=
  ⟨rfl, by decide⟩

end VersionedBlobs

end Store
end Membrane
