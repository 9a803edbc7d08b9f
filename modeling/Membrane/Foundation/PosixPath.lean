import Membrane.Foundation.SplitLast

/-!
# POSIX paths

A path as a parsed value: whether it starts at the file-system root, and the
names between its slashes.  Empty names and single dots disappear in parsing;
a double dot stays until the path is resolved.  Joining an absolute text
discards everything before it.
-/

namespace Membrane
namespace Foundation

def IsName (name : List Char) : Prop :=
  name ≠ [] ∧ name ≠ ['.'] ∧ ¬ '/' ∈ name

instance (name : List Char) : Decidable (IsName name) :=
  inferInstanceAs (Decidable (name ≠ [] ∧ name ≠ ['.'] ∧ ¬ '/' ∈ name))

theorem isName_of_long {name : List Char} (hlong : 2 ≤ name.length)
    (hfree : ¬ '/' ∈ name) : IsName name := by
  refine ⟨?_, ?_, hfree⟩
  · intro hnil
    rw [hnil] at hlong
    cases hlong
  · intro hdot
    rw [hdot] at hlong
    exact absurd hlong (by decide)

structure PosixPath where
  absolute : Bool
  names : List (List Char)
  proper : forall name, name ∈ names -> IsName name
  deriving DecidableEq

namespace PosixPath

/-! ## Parsing -/

def splitNames (text : List Char) : List (List Char) :=
  (text.splitOn '/').filter (fun name => decide (IsName name))

theorem isName_of_mem_splitNames (text : List Char) (name : List Char)
    (h : name ∈ splitNames text) : IsName name := by
  have hkept := (List.mem_filter.mp h).2
  simpa using hkept

theorem splitNames_slash (text : List Char) :
    splitNames ('/' :: text) = splitNames text := by
  have hsplit := List.splitOn_append_cons_self (a := '/') [] text
  rfl

theorem splitNames_single {name : List Char} (h : IsName name) :
    splitNames name = [name] := by
  rw [splitNames, List.splitOn_eq_singleton h.2.2]
  simp [h]

theorem splitNames_append (before after : List Char) :
    splitNames (before ++ '/' :: after) = splitNames before ++ splitNames after := by
  rw [splitNames, List.splitOn_append_cons_self, List.filter_append]
  rfl

theorem splitNames_slashes (count : Nat) (text : List Char) :
    splitNames (List.replicate count '/' ++ text) = splitNames text := by
  induction count with
  | zero => rfl
  | succ count ih =>
    rw [List.replicate_succ, List.cons_append, splitNames_slash, ih]

/-- A suffix without a slash that is not taken for a dot is a suffix of the last name. -/
theorem splitNames_ending (text ending : List Char) (hslash : ¬ '/' ∈ ending)
    (hlength : 2 ≤ ending.length) :
    exists before tail, ¬ '/' ∈ tail ∧
      splitNames (text ++ ending) = before ++ [tail ++ ending] := by
  have hname : forall tail, ¬ '/' ∈ tail -> IsName (tail ++ ending) := by
    intro tail htail
    apply isName_of_long
    · rw [List.length_append]
      omega
    · intro hmem
      rcases List.mem_append.mp hmem with hleft | hright
      · exact htail hleft
      · exact hslash hright
  cases hsplit : splitLast '/' text with
  | none =>
    have hfree := (splitLast_eq_none_iff '/' text).mp hsplit
    exact ⟨[], text, hfree, splitNames_single (hname text hfree)⟩
  | some parts =>
    rcases parts with ⟨before, tail⟩
    rcases splitLast_some hsplit with ⟨htext, htail⟩
    refine ⟨splitNames before, tail, htail, ?_⟩
    rw [htext, List.append_assoc, List.cons_append, splitNames_append,
      splitNames_single (hname tail htail)]

def spellOut (names : List (List Char)) : List Char :=
  names.flatMap (fun name => name ++ ['/'])

theorem splitNames_spellOut (names : List (List Char))
    (h : forall name, name ∈ names -> IsName name) (text : List Char) :
    splitNames (spellOut names ++ text) = names ++ splitNames text := by
  induction names with
  | nil => rfl
  | cons name rest ih =>
    have hname : IsName name := h name List.mem_cons_self
    have hrest := ih (fun other hother => h other (List.mem_cons_of_mem name hother))
    have htext : spellOut (name :: rest) ++ text =
        name ++ '/' :: (spellOut rest ++ text) := by
      simp [spellOut]
    rw [htext, splitNames_append, splitNames_single hname, hrest]
    rfl

def parse (text : List Char) : PosixPath where
  absolute := text.head? == some '/'
  names := splitNames text
  proper := isName_of_mem_splitNames text

/-! ## Joining -/

def join (p : PosixPath) (text : List Char) : PosixPath :=
  if (parse text).absolute then
    parse text
  else
    { absolute := p.absolute
      names := p.names ++ splitNames text
      proper := by
        intro name hname
        rcases List.mem_append.mp hname with hp | ht
        · exact p.proper name hp
        · exact isName_of_mem_splitNames text name ht }

section

variable (p : PosixPath) (text : List Char)

theorem join_absolute (h : p.absolute = true) :
    (p.join text).absolute = true := by
  by_cases ht : (parse text).absolute
  · rw [join, if_pos ht, ht]
  · rw [join, if_neg ht, h]

theorem join_slash :
    p.join ('/' :: text) = parse ('/' :: text) := by
  rfl

theorem join_names_suffix :
    exists before, (p.join text).names = before ++ splitNames text := by
  by_cases ht : (parse text).absolute
  · exact ⟨[], by rw [join, if_pos ht]; rfl⟩
  · exact ⟨p.names, by rw [join, if_neg ht]⟩

end

theorem ext_of_names {p q : PosixPath} (habsolute : p.absolute = q.absolute)
    (hnames : p.names = q.names) : p = q := by
  cases p
  cases q
  cases habsolute
  cases hnames
  rfl

/-! ## Resolving -/

def parent : List Char := ['.', '.']

def enter (location : List (List Char)) (name : List Char) : List (List Char) :=
  if name = parent then location.dropLast else location ++ [name]

/-- The file an absolute path names once every double dot is resolved. -/
def location (p : PosixPath) : List (List Char) :=
  p.names.foldl enter []

end PosixPath

end Foundation
end Membrane
