import PageRegions.Proofs.Host.Listings

/-!
# Directories that are made with those they lie in

A directory is made by a path from the front: the part of the path up to its last slash first, and
then the path itself. Whatever comes of it, nothing is added but directories that the path or a part
of it up to a slash leads to, and nothing else has changed (`Grows`). It takes a call for each slash
and one more (`ensurePathWithin_eq`).

If no fault is reported, the path leads to a directory, unless it led to something else before: what
lies at the path is left alone whatever it is, and that counts as success
(`ensureDirectories_delivers`).
-/

set_option autoImplicit false

namespace PageRegions
namespace FileTree

variable {t t' : FileTree} {path parent : List Char} {text : String} {target : List String}

/-! ## Paths in front of a path -/

/-- Whether a path is another one up to a slash, or the whole of it. -/
def Leading (front path : List Char) : Prop := front = path ∨ ∃ more, path = front ++ '/' :: more

theorem eq_append_of_parentText? (h : parentText? path = some parent) :
    ∃ more, path = parent ++ '/' :: more := by
  unfold parentText? at h
  split at h
  · cases h
  · cases h
  · next c front _ hdrop =>
    cases h
    have hc : c = '/' := by
      have hstop := List.head?_dropWhile_not (· ≠ '/') path.reverse
      rw [hdrop] at hstop
      simpa using hstop
    have hsplit := List.takeWhile_append_dropWhile (p := (· ≠ '/')) (l := path.reverse)
    have hreversed := congrArg List.reverse hsplit
    rw [hdrop, hc, List.reverse_reverse, List.reverse_append, List.reverse_cons, List.append_assoc,
      List.singleton_append] at hreversed
    exact ⟨_, hreversed.symm⟩

theorem Leading.of_parent {front more : List Char} (h : Leading front parent)
    (hpath : path = parent ++ '/' :: more) : Leading front path := by
  rcases h with rfl | ⟨rest, rfl⟩
  · exact Or.inr ⟨more, hpath⟩
  · exact Or.inr ⟨rest ++ '/' :: more, by rw [hpath, List.append_assoc, List.cons_append]⟩

/-! ## The calls that it takes -/

/-- Makes a directory and those it lies in as `ensurePath` does, with at most so many calls of
itself, this one included. `none`: these calls are too few. -/
def ensurePathWithin : Nat → FileTree → List Char → Option (Except Fault Unit × FileTree)
  | 0, _, _ => none
  | calls + 1, t, path =>
    match t.check (String.ofList path) with
    | .ok () => some (.ok (), t)
    | .error _ =>
      match parentText? path with
      | none => some (t.ensureDirectory (String.ofList path))
      | some parent =>
        (ensurePathWithin calls t parent).map fun
          | (.error fault, t) => (.error fault, t)
          | (.ok (), t) => t.ensureDirectory (String.ofList path)

/-- What lies in other directories is made behind them, unless that fails. -/
theorem ensurePath_of_parent {fault : Fault} (hcheck : t.check (String.ofList path) = .error fault)
    (hparent : parentText? path = some parent) :
    t.ensurePath path = match t.ensurePath parent with
      | (.error fault, t) => (.error fault, t)
      | (.ok (), t) => t.ensureDirectory (String.ofList path) := by
  rw [ensurePath, hcheck]
  simp only
  split
  · next hnone =>
    rw [hparent] at hnone
    cases hnone
  · next other hother =>
    rw [hparent] at hother
    cases hother
    rfl

theorem ensurePath_of_root {fault : Fault} (hcheck : t.check (String.ofList path) = .error fault)
    (hparent : parentText? path = none) :
    t.ensurePath path = t.ensureDirectory (String.ofList path) := by
  rw [ensurePath, hcheck]
  simp only
  split
  · rfl
  · next other hother =>
    rw [hparent] at hother
    cases hother

theorem ensurePath_of_found (hcheck : t.check (String.ofList path) = .ok ()) :
    t.ensurePath path = (.ok (), t) := by
  rw [ensurePath, hcheck]

/-- **A call for each slash is enough**, and one for the path itself. -/
theorem ensurePathWithin_eq (t : FileTree) {calls : Nat} (hcalls : path.count '/' < calls) :
    t.ensurePathWithin calls path = some (t.ensurePath path) := by
  induction calls generalizing path with
  | zero => exact absurd hcalls (Nat.not_lt_zero _)
  | succ calls ih =>
    unfold ensurePathWithin
    cases hcheck : t.check (String.ofList path) with
    | ok => exact congrArg some (ensurePath_of_found hcheck).symm
    | error fault =>
      cases hparent : parentText? path with
      | none => exact congrArg some (ensurePath_of_root hcheck hparent).symm
      | some parent =>
        obtain ⟨more, hpath⟩ := eq_append_of_parentText? hparent
        have hshorter : parent.count '/' < calls := by
          rw [hpath, List.count_append, List.count_cons_self] at hcalls
          omega
        simp only [ih hshorter, ensurePath_of_parent hcheck hparent, Option.map_some]

/-- Makes a directory and those it lies in as `ensureDirectories` does, with at most so many calls
of itself. -/
def ensureDirectoriesWithin (calls : Nat) (t : FileTree) (path : String) :
    Option (Except Fault Unit × FileTree) :=
  if path = "" then some (.error .emptyDirectoryName, t) else t.ensurePathWithin calls path.toList

/-! ## What is added -/

theorem Finds.isDirectoryText (h : t.Finds text target .directory) :
    t.isDirectoryText text = true := by
  unfold FileTree.isDirectoryText
  rw [h.resolves]
  exact decide_eq_true h.found

/-- A directory that was added for a path: nothing was at its place, and it is found by the path or
by the part of it up to a slash. -/
structure AddedFor (path : List Char) (t t' : FileTree) (e : List String × Entry) : Prop where
  directory : e.2 = .directory
  missing : t.entry? e.1 = none
  leading : ∃ front, Leading front path ∧ t'.Finds (String.ofList front) e.1 .directory

/-- What may have become of a tree when a directory was to be made by a path: there can be
directories in it that were added for the path. All else is as it was. -/
structure Grows (path : List Char) (t t' : FileTree) : Prop where
  here : t'.here = t.here
  kept : ∀ target entry, t.entry? target = some entry → FileTree.entry? t' target = some entry
  added : ∃ added, t'.entries = t.entries ++ added ∧ ∀ e ∈ added, AddedFor path t t' e

theorem Grows.refl (path : List Char) (t : FileTree) : Grows path t t :=
  ⟨rfl, fun _ _ h => h, [], (List.append_nil _).symm, nofun⟩

theorem Grows.of_parent {more : List Char} (h : Grows parent t t')
    (hpath : path = parent ++ '/' :: more) : Grows path t t' := by
  obtain ⟨hhere, hkept, added, hentries, hadded⟩ := h
  refine ⟨hhere, hkept, added, hentries, fun e he => ?_⟩
  obtain ⟨hdirectory, hmissing, front, hleading, hfinds⟩ := hadded e he
  exact ⟨hdirectory, hmissing, front, hleading.of_parent hpath, hfinds⟩

/-- A directory that is made at its place is found there. -/
theorem finds_add {place : List String} {name : String} {slashed : Bool}
    (hplace : t.place text = .ok ⟨place, .name name, slashed⟩)
    (hmissing : t.entry? (place ++ [name]) = none) :
    FileTree.Finds (t.add (place ++ [name]) .directory) text (place ++ [name]) .directory := by
  have hframe : Frame (fun _ => False) t (t.add (place ++ [name]) .directory) :=
    frame_add_place hplace
  exact hframe.finds_placed hplace (entry?_add_self hmissing) fun _ => rfl

/-- **One more directory**, or none, is added for the path itself. -/
theorem Grows.step (h : Grows path t t') :
    Grows path t (t'.ensureDirectory (String.ofList path)).2 := by
  rcases t'.ensureDirectory_cases (String.ofList path) with
    ⟨heq, -⟩ | ⟨place, name, slashed, hplace, hmissing, heq⟩ <;> rw [heq]
  · exact h
  · have hframe : Frame (fun _ => False) t' (t'.add (place ++ [name]) .directory) :=
      frame_add_place hplace
    obtain ⟨hhere, hkept, added, hentries, hadded⟩ := h
    refine ⟨hhere, fun target entry hentry => hframe.elsewhere _ _ (hkept target entry hentry) id,
      added ++ [(place ++ [name], .directory)], ?_, ?_⟩
    · rw [add, hentries, List.append_assoc]
    · rw [List.forall_mem_append, List.forall_mem_singleton]
      constructor
      · intro e he
        obtain ⟨hdirectory, hbefore, front, hleading, hfinds⟩ := hadded e he
        exact ⟨hdirectory, hbefore, front, hleading, hframe.finds hfinds (Or.inl rfl)⟩
      · refine ⟨rfl, Option.eq_none_iff_forall_ne_some.mpr fun entry hentry => ?_, path, Or.inl rfl,
          finds_add hplace hmissing⟩
        rw [hkept _ entry hentry] at hmissing
        cases hmissing

theorem ensurePath_grows (t : FileTree) (path : List Char) :
    Grows path t (t.ensurePath path).2 := by
  fun_induction t.ensurePath path with
  | case1 path => exact .refl path t
  | case2 path => exact (Grows.refl path t).step
  | case3 path _ fault hcheck parent hparent fault' t' hout ih =>
    rw [hout] at ih
    obtain ⟨more, hpath⟩ := eq_append_of_parentText? hparent
    exact ih.of_parent hpath
  | case4 path _ fault hcheck parent hparent t' hout ih =>
    rw [hout] at ih
    obtain ⟨more, hpath⟩ := eq_append_of_parentText? hparent
    exact (ih.of_parent hpath).step

/-! ## What is there afterwards -/

theorem isDirectoryText_of_ensureDirectory (h : (t.ensureDirectory text).1 = .ok ()) :
    FileTree.isDirectoryText (t.ensureDirectory text).2 text = true := by
  rcases t.ensureDirectory_cases text with ⟨heq, hdirectory⟩ | ⟨place, name, slashed, hplace,
    hmissing, heq⟩ <;> rw [heq]
  · exact hdirectory h
  · exact (finds_add hplace hmissing).isDirectoryText

/-- A path that led nowhere leads to a directory when that was made. -/
theorem isDirectoryText_of_ensurePath (hcheck : t.check (String.ofList path) ≠ .ok ())
    (h : (t.ensurePath path).1 = .ok ()) :
    FileTree.isDirectoryText (t.ensurePath path).2 (String.ofList path) = true := by
  revert h
  fun_cases FileTree.ensurePath t path with
  | case1 _ hfound => exact absurd hfound hcheck
  | case2 => exact isDirectoryText_of_ensureDirectory
  | case3 => exact nofun
  | case4 => exact isDirectoryText_of_ensureDirectory

/-- **What making a directory comes to.** It ends, after no more calls than the path has slashes and
one. If it succeeds, there is a directory at the path just if there was nothing else before. And it
adds nothing but directories that the path or a part of it leads to. -/
theorem ensureDirectories_delivers (t : FileTree) (path : String) :
    t.ensureDirectoriesWithin (path.toList.count '/' + 1) path = some (t.ensureDirectories path)
      ∧ ((t.ensureDirectories path).1 = .ok () →
        (FileTree.isDirectoryText (t.ensureDirectories path).2 path = true
          ↔ (t.check path = .ok () → t.isDirectoryText path = true)))
      ∧ Grows path.toList t (t.ensureDirectories path).2 := by
  unfold ensureDirectoriesWithin ensureDirectories
  by_cases hempty : path = ""
  · rw [if_pos hempty, if_pos hempty]
    exact ⟨rfl, nofun, .refl _ t⟩
  · rw [if_neg hempty, if_neg hempty]
    refine ⟨t.ensurePathWithin_eq (Nat.lt_succ_self _), fun hok => ?_, t.ensurePath_grows _⟩
    by_cases hcheck : t.check path = .ok ()
    · -- Nothing is made of a path that leads somewhere.
      rw [ensurePath_of_found (by rwa [String.ofList_toList])]
      exact ⟨fun h _ => h, fun h => h hcheck⟩
    · have hmade := isDirectoryText_of_ensurePath (by rwa [String.ofList_toList]) hok
      rw [String.ofList_toList] at hmade
      exact iff_of_true hmade fun h => absurd h hcheck

/-- A directory in one that is missing too, behind two slashes. -/
theorem ensureDirectories_delivers_nested :
    FileTree.isDirectoryText (scratch.ensureDirectories "a//b").2 "a//b" = true := by
  obtain ⟨hwithin, hdelivers, -⟩ := scratch.ensureDirectories_delivers "a//b"
  have hok : (scratch.ensureDirectories "a//b").1 = .ok () := by
    have hresult : (scratch.ensureDirectoriesWithin ("a//b".toList.count '/' + 1) "a//b").map (·.1)
        = some (.ok ()) := by decide
    rw [hwithin] at hresult
    exact Option.some.inj hresult
  exact (hdelivers hok).mpr (by decide)

/-- A file at the path is left there, and that counts as success. -/
theorem ensureDirectories_over_file :
    (FileTree.ensureDirectories (scratch.add ["tmp", "session", "f"] (.file 0 0)) "f").1 = .ok ()
      ∧ FileTree.isDirectoryText
        (FileTree.ensureDirectories (scratch.add ["tmp", "session", "f"] (.file 0 0)) "f").2 "f"
          = false := by
  have hfinds : FileTree.Finds (scratch.add ["tmp", "session", "f"] (.file 0 0)) "f"
      ["tmp", "session", "f"] (.file 0 0) := ⟨by decide, by decide⟩
  rw [hfinds.ensureDirectories (by decide)]
  exact ⟨rfl, by decide⟩

end FileTree
end PageRegions
