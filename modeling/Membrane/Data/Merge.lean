import Mathlib.Data.List.Pairwise
import Membrane.Data.Fragment
import Membrane.Foundation.Latest

/-!
# Merging versions

Two versions of one fragment are merged by their hybrid logical clocks.  The
version with the larger clock is meant to win.  Where the other version has the
larger clock, a new fragment is built that has the clock of the other version, but
most fields of the first one.
-/

namespace Membrane
namespace Data

open Foundation

inductive MergeError where
  | differentIdentity (own other : PayloadIdentity)
  | acrossTenants (own other : String)
  deriving DecidableEq

def firstRef (own other : Option String) : Option String :=
  if own = none ∨ own = some "" then other else own

def firstText (own other : String) : String :=
  if own = "" then other else own

namespace Fragment

def advanced (f other : Fragment) : Fragment where
  toFragmentFields :=
    { f.toFragmentFields with
      payloadRef := firstRef f.payloadRef other.payloadRef
      hlc := other.hlc
      fingerprintCompat := firstText other.fingerprintCompat f.fingerprintCompat }
  accepted := by
    rcases (FragmentFields.postInit_eq_ok_iff _).mp f.accepted with
      ⟨hsize, httl, hreuse, hversion, htenant, _, hfingerprint⟩
    rcases (FragmentFields.postInit_eq_ok_iff _).mp other.accepted with
      ⟨_, _, _, _, _, hhlc, hother⟩
    apply (FragmentFields.postInit_eq_ok_iff _).mpr
    refine ⟨hsize, httl, hreuse, hversion, htenant, hhlc, ?_⟩
    unfold firstText
    split
    · exact hfingerprint
    · exact hother

def merge (f other : Fragment) : Except MergeError Fragment :=
  if other.identity ≠ f.identity then
    .error (.differentIdentity f.identity other.identity)
  else if other.tenantId ≠ f.tenantId then
    .error (.acrossTenants f.tenantId other.tenantId)
  else if other.hlc ≤ f.hlc then .ok f
  else .ok (f.advanced other)

def mergeAll (first : Fragment) (rest : List Fragment) : Except MergeError Fragment :=
  rest.foldlM merge first

def SameSubject (f other : Fragment) : Prop :=
  other.identity = f.identity ∧ other.tenantId = f.tenantId

variable {f other : Fragment}

theorem merge_of_later (hsame : SameSubject f other) (h : other.hlc ≤ f.hlc) :
    f.merge other = .ok f := by
  unfold merge
  rw [if_neg (not_not.mpr hsame.left), if_neg (not_not.mpr hsame.right), if_pos h]

theorem merge_of_earlier (hsame : SameSubject f other) (h : f.hlc < other.hlc) :
    f.merge other = .ok (f.advanced other) := by
  unfold merge
  rw [if_neg (not_not.mpr hsame.left), if_neg (not_not.mpr hsame.right),
    if_neg (not_le.mpr h)]

/-!
# When the later version wins
-/

/-- The earlier version has nothing that a merge with the later one would keep. -/
structure Superseded (f other : Fragment) : Prop where
  payloadRef : f.payloadRef = none ∨ f.payloadRef = some "" ∨
    f.payloadRef = other.payloadRef
  payloadSize : f.payloadSize = other.payloadSize
  ttl : f.ttl = other.ttl
  reuseScore : f.reuseScore = other.reuseScore
  versionId : f.versionId = other.versionId
  consistency : f.consistency = other.consistency
  fingerprintCompat : other.fingerprintCompat ≠ "" ∨ f.fingerprintCompat = ""

theorem firstRef_eq_right_iff (own other : Option String) :
    firstRef own other = other <-> own = none ∨ own = some "" ∨ own = other := by
  unfold firstRef
  split
  · rename_i hempty
    exact ⟨fun _ => or_assoc.mp (Or.inl hempty), fun _ => rfl⟩
  · rename_i hfull
    constructor
    · intro h
      exact Or.inr (Or.inr h)
    · intro h
      rcases or_assoc.mpr h with hempty | heq
      · exact absurd hempty hfull
      · exact heq

theorem firstText_eq_left_iff (own other : String) :
    firstText own other = own <-> own ≠ "" ∨ other = "" := by
  unfold firstText
  split
  · rename_i hempty
    rw [hempty]
    simp
  · rename_i hfull
    simp [hfull]

theorem ext_fields (h : f.toFragmentFields = other.toFragmentFields) : f = other := by
  cases f
  cases other
  cases h
  rfl

theorem advanced_eq_iff (hsame : SameSubject f other) :
    f.advanced other = other <-> Superseded f other := by
  have hadvanced : (f.advanced other).toFragmentFields =
      FragmentFields.mk f.identity (firstRef f.payloadRef other.payloadRef) f.payloadSize f.ttl
        f.reuseScore f.versionId f.consistency other.hlc
        (firstText other.fingerprintCompat f.fingerprintCompat) f.tenantId := rfl
  constructor
  · intro h
    have hfields := hadvanced.symm.trans (congrArg Fragment.toFragmentFields h)
    exact
      { payloadRef := (firstRef_eq_right_iff _ _).mp
          (congrArg FragmentFields.payloadRef hfields)
        payloadSize := by rw [← hfields]
        ttl := by rw [← hfields]
        reuseScore := by rw [← hfields]
        versionId := by rw [← hfields]
        consistency := by rw [← hfields]
        fingerprintCompat := (firstText_eq_left_iff _ _).mp
          (congrArg FragmentFields.fingerprintCompat hfields) }
  · intro h
    apply ext_fields
    rw [hadvanced, (firstRef_eq_right_iff _ _).mpr h.payloadRef, ← hsame.left, ← hsame.right,
      h.payloadSize, h.ttl, h.reuseScore, h.versionId, h.consistency,
      (firstText_eq_left_iff _ _).mpr h.fingerprintCompat]

/-- Every version agrees with the versions that come after it. -/
def Succeeding (versions : List Fragment) : Prop :=
  forall a b, a ∈ versions -> b ∈ versions -> a.hlc < b.hlc -> Superseded a b

/-- The law of last-writer-wins merging, for the given versions. -/
structure LastWriterWins (versions : List Fragment) : Prop where
  winner : forall a b, a ∈ versions -> b ∈ versions -> a.hlc < b.hlc ->
    a.merge b = .ok b ∧ b.merge a = .ok b
  commutative : forall a b, a ∈ versions -> b ∈ versions -> a.merge b = b.merge a
  associative : forall a b c, a ∈ versions -> b ∈ versions -> c ∈ versions ->
    (a.merge b).bind (fun merged => merged.merge c) =
      (b.merge c).bind (fun merged => a.merge merged)
  idempotent : forall a, a ∈ versions -> a.merge a = .ok a
  orderless : forall first rest second others, first :: rest ⊆ versions ->
    (first :: rest).Perm (second :: others) ->
    mergeAll first rest = mergeAll second others

def clock (f : Fragment) : Int := f.hlc

theorem clocksSeparate_of_pairwise {versions : List Fragment}
    (h : versions.Pairwise (fun a b => a.hlc ≠ b.hlc)) :
    ClocksSeparate clock versions := by
  intro a b ha hb hclock
  by_contra hne
  have hsymm : Std.Symm (fun a b : Fragment => a.hlc ≠ b.hlc) :=
    ⟨fun _ _ hdiffer heq => hdiffer heq.symm⟩
  exact h.forall ha hb hne hclock

section Versions

variable {versions : List Fragment}
variable (hsame : forall a b, a ∈ versions -> b ∈ versions -> SameSubject a b)

include hsame

theorem merge_eq_later (h : Succeeding versions) {a b : Fragment} (ha : a ∈ versions)
    (hb : b ∈ versions) :
    a.merge b = .ok (later clock a b) := by
  rcases later_cases clock a b with
    ⟨hle, hlater⟩ | ⟨hlt, hlater⟩
  · rw [hlater]
    exact merge_of_later (hsame a b ha hb) hle
  · rw [hlater, merge_of_earlier (hsame a b ha hb) hlt,
      (advanced_eq_iff (hsame a b ha hb)).mpr (h a b ha hb hlt)]

theorem mergeAll_eq_latest (h : Succeeding versions) {first : Fragment}
    {rest : List Fragment} (hsub : first :: rest ⊆ versions) :
    mergeAll first rest =
      .ok (latest clock first rest) := by
  induction rest generalizing first with
  | nil => rfl
  | cons next rest ih =>
    have hfirst := hsub List.mem_cons_self
    have hnext := hsub (List.mem_cons_of_mem first List.mem_cons_self)
    have hrest : rest ⊆ versions := fun version hversion =>
      hsub (List.mem_cons_of_mem first (List.mem_cons_of_mem next hversion))
    have hlater : later clock first next ∈ versions := later_mem hfirst hnext
    unfold mergeAll
    rw [List.foldlM_cons, merge_eq_later hsame h hfirst hnext]
    exact ih (List.cons_subset.mpr ⟨hlater, hrest⟩)

theorem lastWriterWins_of_succeeding
    (hclocks : versions.Pairwise (fun a b => a.hlc ≠ b.hlc)) (h : Succeeding versions) :
    LastWriterWins versions where
  winner a b ha hb hlt := by
    constructor
    · have hlater : later clock a b = b := later_eq_right hlt
      rw [merge_eq_later hsame h ha hb, hlater]
    · exact merge_of_later (hsame b a hb ha) hlt.le
  commutative a b ha hb := by
    rw [merge_eq_later hsame h ha hb, merge_eq_later hsame h hb ha,
      later_comm (clocksSeparate_of_pairwise hclocks a b ha hb)]
  associative a b c ha hb hc := by
    rw [merge_eq_later hsame h ha hb, merge_eq_later hsame h hb hc]
    show (later clock a b).merge c = a.merge (later clock b c)
    rw [merge_eq_later hsame h (later_mem ha hb) hc,
      merge_eq_later hsame h ha (later_mem hb hc), later_assoc]
  idempotent a ha := merge_of_later (hsame a a ha ha) (le_refl _)
  orderless first rest second others hsub hperm := by
    have hseparate : ClocksSeparate clock
        (first :: rest) := fun a b ha hb =>
      clocksSeparate_of_pairwise hclocks a b (hsub ha) (hsub hb)
    rw [mergeAll_eq_latest hsame h hsub,
      mergeAll_eq_latest hsame h (fun _ hmem => hsub (hperm.symm.subset hmem)),
      latest_perm hseparate hperm]

/-- Merging is last-writer-wins for exactly those versions of a fragment that have
nothing a later version lacks. -/
theorem lastWriterWins_iff (hclocks : versions.Pairwise (fun a b => a.hlc ≠ b.hlc)) :
    LastWriterWins versions <-> Succeeding versions := by
  constructor
  · intro h a b ha hb hlt
    have hmerged := (h.winner a b ha hb hlt).left
    rw [merge_of_earlier (hsame a b ha hb) hlt] at hmerged
    exact (advanced_eq_iff (hsame a b ha hb)).mp (Except.ok.inj hmerged)
  · exact lastWriterWins_of_succeeding hsame hclocks

end Versions

def version (payloadSize hlc : Nat) : Fragment where
  toFragmentFields :=
    { firstCopy.toFragmentFields with payloadSize := payloadSize, hlc := hlc }
  accepted := by
    rcases (FragmentFields.postInit_eq_ok_iff _).mp firstCopy.accepted with
      ⟨_, httl, hreuse, hversion, htenant, _, hfingerprint⟩
    exact (FragmentFields.postInit_eq_ok_iff _).mpr
      ⟨Int.natCast_nonneg payloadSize, httl, hreuse, hversion, htenant,
        Int.natCast_nonneg hlc, hfingerprint⟩

theorem version_sameSubject (size clock otherSize otherClock : Nat) :
    SameSubject (version size clock) (version otherSize otherClock) := ⟨rfl, rfl⟩

theorem version_superseded_iff (size clock otherSize otherClock : Nat) :
    Superseded (version size clock) (version otherSize otherClock) <->
      size = otherSize := by
  constructor
  · intro h
    exact Int.ofNat.inj h.payloadSize
  · rintro rfl
    exact
      { payloadRef := Or.inr (Or.inr rfl)
        payloadSize := rfl
        ttl := rfl
        reuseScore := rfl
        versionId := rfl
        consistency := rfl
        fingerprintCompat := Or.inr rfl }

theorem versions_lastWriterWins :
    LastWriterWins [version 10 1, version 10 2, version 10 3] := by
  have hall : forall a, a ∈ [version 10 1, version 10 2, version 10 3] ->
      exists clock, a = version 10 clock := by
    intro a ha
    simp only [List.mem_cons, List.not_mem_nil, or_false] at ha
    rcases ha with ha | ha | ha
    · exact ⟨1, ha⟩
    · exact ⟨2, ha⟩
    · exact ⟨3, ha⟩
  apply (lastWriterWins_iff _ _).mpr
  · intro a b ha hb _
    rcases hall a ha with ⟨clock, rfl⟩
    rcases hall b hb with ⟨other, rfl⟩
    exact (version_superseded_iff 10 clock 10 other).mpr rfl
  · intro a b ha hb
    rcases hall a ha with ⟨clock, rfl⟩
    rcases hall b hb with ⟨other, rfl⟩
    exact version_sameSubject 10 clock 10 other
  · decide

/-- A later version of another size does not win. -/
theorem version_merge_resized :
    SameSubject (version 10 1) (version 20 2) ∧
      (version 10 1).hlc < (version 20 2).hlc ∧
      (version 10 1).merge (version 20 2) ≠ .ok (version 20 2) ∧
      (version 20 2).merge (version 10 1) = .ok (version 20 2) := by
  refine ⟨version_sameSubject 10 1 20 2, by decide, ?_, ?_⟩
  · intro h
    rw [merge_of_earlier (version_sameSubject 10 1 20 2) (by decide)] at h
    have hsuperseded := (advanced_eq_iff (version_sameSubject 10 1 20 2)).mp
      (Except.ok.inj h)
    have hsize := (version_superseded_iff 10 1 20 2).mp hsuperseded
    omega
  · exact merge_of_later (version_sameSubject 20 2 10 1) (by decide)

end Fragment

end Data
end Membrane
