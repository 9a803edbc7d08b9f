import Membrane.Foundation.PosixPath
import Membrane.Store.ContentStore
import Mathlib.Data.String.Basic

/-!
# Addresses of blob files

The on-disk content store keeps the bytes of a key in a file whose path is
built from slices of the key.  The checks that storing and replicating make on
a payload reference ask only whether that file exists.
-/

namespace Membrane
namespace Store

open Foundation

/-- The directory a store writes under, and the files that exist on the disk by
their resolved location, each with the key it is encrypted for and its contents. A
relative directory stands for its path below the working directory. -/
structure FilesystemBlob where
  root : PosixPath
  root_absolute : root.absolute = true
  files : Dict (List (List Char)) (String × Bytes)

namespace FilesystemBlob

def extension : List Char := ".blob".toList

def shortKey (key : String) : String :=
  "key must be at least 4 chars for sharded layout, got " ++ key

def pathFor (s : FilesystemBlob) (key : String) : Except String PosixPath :=
  if key.toList.length < 4 then .error (shortKey key)
  else
    let shardA := key.toList.take 2
    let shardB := (key.toList.drop 2).take 2
    let directory := (s.root.join shardA).join shardB
    .ok (directory.join (key.toList ++ extension))

def has (s : FilesystemBlob) (key : String) : Except String Bool :=
  (s.pathFor key).map (fun path => decide (path.location ∈ s.files))

def payloadPresent (s : FilesystemBlob) (payloadRef : String) : Bool :=
  match s.has payloadRef with
  | .ok present => present
  | .error _ => false

/-- A reference passes the test of a store, or the test of a replication, which
lets the error of a missing address through. -/
def Accepted (s : FilesystemBlob) (payloadRef : String) : Prop :=
  s.payloadPresent payloadRef = true ∨ s.has payloadRef = .ok true

theorem accepted_iff (s : FilesystemBlob) (payloadRef : String) :
    s.Accepted payloadRef <->
      exists path, s.pathFor payloadRef = .ok path ∧ path.location ∈ s.files := by
  unfold Accepted payloadPresent has
  cases s.pathFor payloadRef with
  | error message | ok path => simp [Except.map]

def pathOf (s : FilesystemBlob) (key : String) : List (List Char) :=
  match s.pathFor key with
  | .ok path => path.location
  | .error _ => []

/-- The error of a missing address does not depend on the store. -/
def fault (key : String) : Option String :=
  if key.toList.length < 4 then some (shortKey key) else none

theorem pathFor_eq_error_iff (s : FilesystemBlob) (key message : String) :
    s.pathFor key = .error message <-> fault key = some message := by
  unfold pathFor fault
  split_ifs <;> simp

/-- Only the key a file is encrypted for reads its contents. -/
def get (s : FilesystemBlob) (key : String) : Option Bytes :=
  match s.files.get? (s.pathOf key) with
  | none => none
  | some (owner, data) => if owner = key then some data else none

/-- The temporary file of a key with a slash goes to a directory of that name, which a
write does not make: such a write is taken to fail. -/
def put (s : FilesystemBlob) (key : String) (data : Bytes) : Except String FilesystemBlob :=
  match s.pathFor key with
  | .error message => .error message
  | .ok path =>
    if '/' ∈ key.toList then .error "No such file or directory"
    else .ok { s with files := s.files.set path.location (key, data) }

def delete (s : FilesystemBlob) (key : String) : Bool × FilesystemBlob :=
  (decide (s.pathOf key ∈ s.files), { s with files := s.files.erase (s.pathOf key) })

instance : PayloadStore FilesystemBlob where
  fault := fault
  get := get
  has := payloadPresent
  put := put
  delete := delete

/-- Every accepted reference has its file strictly below the store's directory,
and no two of them share a file. -/
structure Contained (s : FilesystemBlob) : Prop where
  inside : forall ref path, s.Accepted ref -> s.pathFor ref = .ok path ->
    exists below, below ≠ [] ∧ path.location = s.root.location ++ below
  distinct : forall ref other path otherPath, s.Accepted ref -> s.Accepted other ->
    s.pathFor ref = .ok path -> s.pathFor other = .ok otherPath ->
    path.location = otherPath.location -> ref = other

/-!
# Other spellings

The last join of an address discards the directory when the reference starts
with a slash.  Spelling out the path of an existing file, with any number of
further slashes in front, therefore gives more references for that file.
-/

theorem extension_free : ¬ '/' ∈ extension := by
  decide

theorem pathFor_eq_ok {s : FilesystemBlob} {key : String} {path : PosixPath}
    (h : s.pathFor key = .ok path) :
    4 ≤ key.toList.length ∧ path.absolute = true ∧
      exists before tail, path.names = before ++ [tail ++ extension] := by
  by_cases hshort : key.toList.length < 4
  · rw [pathFor, if_pos hshort] at h
    cases h
  · rw [pathFor, if_neg hshort] at h
    cases h
    have hroot := PosixPath.join_absolute s.root (key.toList.take 2) s.root_absolute
    have hdirectory := PosixPath.join_absolute _ ((key.toList.drop 2).take 2) hroot
    refine ⟨by omega, PosixPath.join_absolute _ _ hdirectory, ?_⟩
    rcases PosixPath.join_names_suffix
      ((s.root.join (key.toList.take 2)).join ((key.toList.drop 2).take 2))
      (key.toList ++ extension) with ⟨front, hfront⟩
    rcases PosixPath.splitNames_ending key.toList extension extension_free (by decide)
      with ⟨before, tail, _, hnames⟩
    exact ⟨front ++ before, tail, by rw [hfront, hnames, List.append_assoc]⟩

def spelling (slashes : Nat) (directories : List (List Char)) (tail : List Char) : String :=
  String.ofList
    ('/' :: (List.replicate slashes '/' ++ (PosixPath.spellOut directories ++ tail)))

section

variable (slashes : Nat) (directories : List (List Char)) (tail : List Char)

theorem spelling_toList :
    (spelling slashes directories tail).toList =
      '/' :: (List.replicate slashes '/' ++ (PosixPath.spellOut directories ++ tail)) := by
  rw [spelling, String.toList_ofList]

theorem slashes_lt_spelling_length :
    slashes < (spelling slashes directories tail).toList.length := by
  rw [spelling_toList, List.length_cons, List.length_append, List.length_replicate]
  omega

end

theorem pathFor_spelling (s : FilesystemBlob) {path : PosixPath}
    {directories : List (List Char)} {tail : List Char} (slashes : Nat)
    (hslashes : 4 ≤ slashes) (habsolute : path.absolute = true)
    (hnames : path.names = directories ++ [tail ++ extension]) :
    s.pathFor (spelling slashes directories tail) = .ok path := by
  have hlong : ¬ (spelling slashes directories tail).toList.length < 4 := by
    have hlength := slashes_lt_spelling_length slashes directories tail
    omega
  rw [pathFor, if_neg hlong]
  have htext : (spelling slashes directories tail).toList ++ extension =
      '/' :: (List.replicate slashes '/' ++
        (PosixPath.spellOut directories ++ (tail ++ extension))) := by
    rw [spelling_toList]
    simp only [List.cons_append, List.append_assoc]
  have hdirectories : forall name, name ∈ directories -> IsName name := by
    intro name hname
    exact path.proper name (by rw [hnames]; exact List.mem_append_left _ hname)
  have hfile : IsName (tail ++ extension) :=
    path.proper _ (by rw [hnames]; exact List.mem_append_right _ List.mem_cons_self)
  simp only [htext, PosixPath.join_slash]
  apply congrArg Except.ok
  apply PosixPath.ext_of_names
  · rw [habsolute]
    rfl
  · show PosixPath.splitNames _ = path.names
    rw [PosixPath.splitNames_slash, PosixPath.splitNames_slashes,
      PosixPath.splitNames_spellOut directories hdirectories,
      PosixPath.splitNames_single hfile, hnames]

theorem Accepted.exists_spelling {s : FilesystemBlob} {ref : String} (h : s.Accepted ref) :
    exists other path, s.Accepted other ∧ other ≠ ref ∧
      s.pathFor ref = .ok path ∧ s.pathFor other = .ok path := by
  rcases (accepted_iff s ref).mp h with ⟨path, hpath, hfile⟩
  rcases pathFor_eq_ok hpath with ⟨hlength, habsolute, directories, tail, hnames⟩
  have hother := pathFor_spelling s ref.toList.length hlength habsolute hnames
  refine ⟨spelling ref.toList.length directories tail, path, ?_, ?_, hpath, hother⟩
  · exact (accepted_iff s _).mpr ⟨path, hother, hfile⟩
  · intro heq
    have hlonger := slashes_lt_spelling_length ref.toList.length directories tail
    rw [heq] at hlonger
    exact absurd hlonger (Nat.lt_irrefl _)

/-- The files of a store are kept apart and inside its directory only as long as
no reference is accepted at all. -/
theorem contained_iff_none_accepted (s : FilesystemBlob) :
    s.Contained <-> forall ref, ¬ s.Accepted ref := by
  constructor
  · intro hcontained ref haccepted
    rcases haccepted.exists_spelling with ⟨other, path, hother, hne, hpath, hotherPath⟩
    exact hne (hcontained.distinct other ref path path hother haccepted hotherPath hpath rfl)
  · intro hnone
    constructor
    · intro ref path haccepted
      exact absurd haccepted (hnone ref)
    · intro ref other path otherPath haccepted
      exact absurd haccepted (hnone ref)

/-!
## One file reached by two references, and one outside the directory
-/

def shared : FilesystemBlob where
  root := PosixPath.parse "/srv/blobs".toList
  root_absolute := by decide
  files :=
    (Dict.empty.set ["srv".toList, "blobs".toList, "ab".toList, "cd".toList,
      "abcd.blob".toList] ("abcd", [1])).set
      ["srv".toList, "cd".toList, "..cd.blob".toList] ("..cd", [2])

theorem shared_not_contained :
    shared.Accepted "..cd" ∧
      shared.pathOf "..cd" = ["srv".toList, "cd".toList, "..cd.blob".toList] ∧
      shared.Accepted "abcd" ∧ shared.Accepted "/srv/blobs/ab/cd/abcd" ∧
      shared.pathOf "abcd" = shared.pathOf "/srv/blobs/ab/cd/abcd" ∧
      ¬ shared.Contained := by
  have habcd : shared.Accepted "abcd" := Or.inl (by decide)
  have hspelled : shared.Accepted "/srv/blobs/ab/cd/abcd" := Or.inl (by decide)
  refine ⟨Or.inl (by decide), by decide, habcd, hspelled, by decide, ?_⟩
  intro hcontained
  have heq := hcontained.distinct _ _ _ _ habcd hspelled rfl rfl (by decide)
  exact absurd heq (by decide)

end FilesystemBlob

end Store
end Membrane
