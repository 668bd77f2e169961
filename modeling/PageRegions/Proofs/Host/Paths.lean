import Mathlib.Data.List.Basic
import Mathlib.Data.List.TakeWhile
import PageRegions.Proofs.Host.Walks

/-!
# What the text of a path names

A file that is made has the last name of the path it is opened by. Below a directory that is the
name that was written behind it, unless the text of the directory has a NUL byte: then the host does
not see the name at all and takes the path for the directory itself. A path that leads to a
directory is neither opened nor deleted as a file.
-/

set_option autoImplicit false

namespace PageRegions

namespace Text

theorem pieces_delimiter (delimiter : Char) (s : List Char) :
    pieces delimiter (delimiter :: s) = [] :: pieces delimiter s := by
  rw [pieces, if_pos rfl]

/-- What is no delimiter belongs to the piece that follows. -/
theorem pieces_cons {delimiter c : Char} {first : List Char} {s : List Char}
    {more : List (List Char)} (hc : c ≠ delimiter) (hs : pieces delimiter s = first :: more) :
    pieces delimiter (c :: s) = (c :: first) :: more := by
  rw [pieces, if_neg hc, hs]

theorem pieces_singleton {delimiter c : Char} (hc : c ≠ delimiter) :
    pieces delimiter [c] = [[c]] := by
  rw [pieces, if_neg hc]
  rfl

theorem pieces_of_notMem {delimiter : Char} {s : List Char} (hne : s ≠ []) (hs : delimiter ∉ s) :
    pieces delimiter s = [s] := by
  induction s with
  | nil => exact absurd rfl hne
  | cons c s ih =>
    rw [List.mem_cons, not_or] at hs
    cases s with
    | nil => exact pieces_singleton (Ne.symm hs.1)
    | cons d s => exact pieces_cons (Ne.symm hs.1) (ih (List.cons_ne_nil d s) hs.2)

/-- A delimiter cuts the text in two. In front of it there may be an empty piece more than there
would be at an end. -/
theorem pieces_append (delimiter : Char) (s tail : List Char) :
    ∃ gap, (∀ piece ∈ gap, piece = [])
      ∧ pieces delimiter (s ++ delimiter :: tail)
        = pieces delimiter s ++ (gap ++ pieces delimiter tail) := by
  induction s with
  | nil => exact ⟨[[]], fun piece hmem => List.mem_singleton.mp hmem, pieces_delimiter _ _⟩
  | cons c s ih =>
    obtain ⟨gap, hgap, heq⟩ := ih
    rw [List.cons_append]
    by_cases hc : c = delimiter
    · refine ⟨gap, hgap, ?_⟩
      rw [hc, pieces_delimiter, pieces_delimiter, heq, List.cons_append]
    · cases hs : pieces delimiter s with
      | nil =>
        -- Only the empty text has no pieces, and so the piece of `c` ends at the delimiter.
        cases s with
        | nil =>
          refine ⟨[], nofun, ?_⟩
          rw [List.nil_append, pieces_cons hc (pieces_delimiter _ _), pieces_singleton hc]
          rfl
        | cons d s =>
          exfalso
          rw [pieces] at hs
          split at hs
          · cases hs
          · split at hs <;> cases hs
      | cons first more =>
        refine ⟨gap, hgap, ?_⟩
        rw [hs, List.cons_append] at heq
        rw [pieces_cons hc heq, pieces_cons hc hs, List.cons_append]

theorem visible_of_notMem {s : String} (hs : '\x00' ∉ s.toList) : visible s = s := by
  unfold visible beforeNul
  rw [List.takeWhile_eq_self_iff.mpr, String.ofList_toList]
  intro c hc
  rw [decide_eq_true_iff]
  rintro rfl
  exact hs hc

/-- Behind a NUL byte nothing is seen. -/
theorem visible_append {s : String} (hs : '\x00' ∈ s.toList) (more : String) :
    visible (s ++ more) = visible s := by
  have hcut : ∀ front back : List Char, beforeNul (front ++ '\x00' :: back) = beforeNul front := by
    intro front back
    induction front with
    | nil => rfl
    | cons c front ih =>
      unfold beforeNul at ih ⊢
      rw [List.cons_append, List.takeWhile_cons, List.takeWhile_cons, ih]
  obtain ⟨front, back, heq⟩ := List.append_of_mem hs
  unfold visible
  rw [String.toList_append, heq, List.append_assoc, List.cons_append, hcut, hcut]

end Text

namespace FileTree

open Text

variable {t : FileTree}

theorem toList_behind (directory name : String) :
    (directory ++ "/" ++ name).toList = directory.toList ++ '/' :: name.toList := by
  rw [String.toList_append, String.toList_append, List.append_assoc]
  rfl

theorem visible_behind {directory name : String} (hdirectory : '\x00' ∉ directory.toList)
    (hname : '\x00' ∉ name.toList) :
    visible (directory ++ "/" ++ name) = directory ++ "/" ++ name := by
  refine visible_of_notMem ?_
  rw [toList_behind, List.mem_append, List.mem_cons, not_or, not_or]
  exact ⟨hdirectory, by decide, hname⟩

theorem Written.absolute_ofText (path : String) :
    (Written.ofText path).absolute = decide ((visible path).toList.head? = some '/') := by
  rw [ofText]

theorem Written.names_ofText (path : String) :
    (Written.ofText path).names
      = ((pieces '/' (visible path).toList).filter (· ≠ [])).map String.ofList := by
  rw [ofText]

theorem Written.slashed_ofText (path : String) :
    (Written.ofText path).slashed = decide ((visible path).toList.getLast? = some '/') := by
  rw [ofText]

/-- The names of a path behind a directory are those of the directory and one more. -/
theorem Written.names_behind {directory name : String} (hdirectory : '\x00' ∉ directory.toList)
    (hname : '\x00' ∉ name.toList) (hslash : '/' ∉ name.toList) (hne : name.toList ≠ []) :
    (Written.ofText (directory ++ "/" ++ name)).names
      = (Written.ofText directory).names ++ [name] := by
  obtain ⟨gap, hgap, hpieces⟩ := pieces_append '/' directory.toList name.toList
  have hempty : gap.filter (· ≠ []) = [] :=
    List.filter_eq_nil_iff.mpr fun piece hmem => by simp [hgap piece hmem]
  rw [names_ofText, names_ofText, visible_behind hdirectory hname, visible_of_notMem hdirectory,
    toList_behind, hpieces, pieces_of_notMem hne hslash, List.filter_append, List.filter_append,
    hempty]
  simp [hne, String.ofList_toList]

theorem Last.ofNames_eq_name {names : List String} {name : String}
    (h : Last.ofNames names = .name name) :
    names.getLast? = some name ∧ name ≠ "." ∧ name ≠ ".." := by
  unfold Last.ofNames at h
  split at h
  · cases h
  · cases h
  · cases h
  · next other hhere hup heq =>
    cases h
    exact ⟨heq, hhere, hup⟩

/-- A place with a name is a name in a directory. -/
theorem place_eq_name {path : String} {directory : List String} {name : String} {slashed : Bool}
    (h : t.place path = .ok ⟨directory, .name name, slashed⟩) :
    checkLength path = .ok ()
      ∧ t.walk (t.start (Written.ofText path)) (Written.ofText path).names.dropLast = .ok directory
      ∧ t.isDirectory directory = true
      ∧ Last.ofNames (Written.ofText path).names = .name name
      ∧ name.length ≤ longestName ∧ slashed = (Written.ofText path).slashed := by
  unfold place at h
  split at h
  · cases h
  · next hchecked =>
    simp only at h
    split at h
    · cases h
    · next found hwalk =>
      split at h
      · cases h
      · next hdirectory =>
        rw [Bool.not_eq_true', Bool.not_eq_false] at hdirectory
        split at h
        · next other hlast =>
          split at h
          · cases h
          · next hlength =>
            cases h
            exact ⟨hchecked, hwalk, hdirectory, hlast, Nat.not_lt.mp hlength, rfl⟩
        · next hlast =>
          rw [Except.ok.injEq, Place.mk.injEq] at h
          exact absurd h.2.1 (hlast _)

/-- What is opened lies at the place of the path: it is made there, or it was there. -/
theorem openFile_ok {new : Nat} {path : String} {target : List String} {t' : FileTree}
    (h : t.openFile new path = .ok (target, t')) :
    (∃ place name, t.place path = .ok ⟨place, .name name, false⟩ ∧ target = place ++ [name])
      ∧ (t.entry? target = none ∧ t' = t.add target (.file new 0)
        ∨ (∃ entry, t.entry? target = some entry ∧ entry ≠ .directory) ∧ t' = t) := by
  unfold openFile at h
  split at h
  · cases h
  · next place name slashed hplace =>
    simp only at h
    cases slashed with
    | true => cases h
    | false =>
      rw [if_neg (by decide)] at h
      split at h
      · next hnone =>
        cases h
        exact ⟨⟨place, name, hplace, rfl⟩, Or.inl ⟨hnone, rfl⟩⟩
      · cases h
      · next entry hdirectory hsome =>
        cases h
        exact ⟨⟨place, name, hplace, rfl⟩, Or.inr ⟨⟨entry, hsome, hdirectory⟩, rfl⟩⟩
  · cases h

/-- A file that is opened has the last name of its path. -/
theorem getLast?_openFile {block : Nat} {path : String} {target : List String} {t' : FileTree}
    (h : t.openFile block path = .ok (target, t')) :
    target.getLast? = (Written.ofText path).names.getLast? := by
  obtain ⟨⟨place, name, hplace, rfl⟩, -⟩ := openFile_ok h
  obtain ⟨-, -, -, hlast, -⟩ := place_eq_name hplace
  rw [List.getLast?_concat, (Last.ofNames_eq_name hlast).1]

/-! ## Paths that lead to directories -/

/-- Whether a path leads to a directory. -/
def Leads (t : FileTree) (path : String) : Prop :=
  ∃ found, t.resolve path = .ok found ∧ t.isDirectory found = true

theorem leads_of_listing {path : String} {names : List String} (h : t.listing path = .ok names) :
    t.Leads path := by
  obtain ⟨found, hresolve, hdirectory, -⟩ := listing_ok h
  exact ⟨found, hresolve, hdirectory⟩

/-- Only what the host sees of a path matters. -/
theorem leads_congr {path other : String} (hvisible : visible path = visible other)
    (h : t.Leads path) : t.Leads other := by
  have hsame : t.resolve other = t.resolve path := by
    unfold resolve checkLength Written.ofText
    rw [hvisible]
  unfold Leads
  rw [hsame]
  exact h

/-- Behind a directory whose text has a NUL byte nothing is seen: each path is that of the directory
itself. -/
theorem Leads.behind {directory : String} (h : t.Leads directory)
    (hnul : '\x00' ∈ directory.toList) (name : String) : t.Leads (directory ++ "/" ++ name) := by
  refine leads_congr ?_ h
  rw [String.append_assoc, visible_append hnul]

/-- The empty path leads nowhere. -/
theorem Leads.ne_empty {path : String} (h : t.Leads path) : path ≠ "" := by
  rintro rfl
  obtain ⟨found, hresolve, -⟩ := h
  exact absurd (resolve_ok.mp hresolve).1 nofun

/-- What such a path names in its directory is a directory. -/
theorem Leads.isDirectory_place {path : String} (h : t.Leads path) {directory : List String}
    {name : String} {slashed : Bool} (hplace : t.place path = .ok ⟨directory, .name name, slashed⟩) :
    t.entry? (directory ++ [name]) = some .directory := by
  obtain ⟨found, hresolve, hdirectory⟩ := h
  obtain ⟨-, hwalk, -, hlast, -, -⟩ := place_eq_name hplace
  obtain ⟨hname, hhere, hup⟩ := Last.ofNames_eq_name hlast
  obtain ⟨-, hfull, -⟩ := resolve_ok.mp hresolve
  rw [← List.dropLast_append_getLast? name hname] at hfull
  obtain ⟨last, hlast, hstep⟩ := walk_concat_ok.mp hfull
  cases hwalk.symm.trans hlast
  cases (walkStep_ok.mp hstep).2 with
  | here => exact absurd rfl hhere
  | up => exact absurd rfl hup
  | into => exact of_decide_eq_true hdirectory

theorem Leads.openFile {path : String} (h : t.Leads path) (block : Nat) :
    ∃ e, t.openFile block path = .error e := by
  unfold FileTree.openFile
  split
  · exact ⟨_, rfl⟩
  · next directory name slashed hplace =>
    simp only [h.isDirectory_place hplace]
    split <;> exact ⟨_, rfl⟩
  · exact ⟨_, rfl⟩

theorem Leads.unlink {path : String} (h : t.Leads path) : ∃ e, t.unlink path = .error e := by
  unfold FileTree.unlink
  split
  · exact ⟨_, rfl⟩
  · next directory name slashed hplace =>
    simp only [h.isDirectory_place hplace]
    exact ⟨_, rfl⟩
  · exact ⟨_, rfl⟩

end FileTree
end PageRegions
