import PageRegions.Proofs.Host.Frames

/-!
# Files that were made since

What is left behind by an attempt is a question about two trees of files, that from before it and
the one there is now. `Traced before paths t` answers it by the paths that have yet to be deleted:
whatever there is in `t`, directories apart, was in `before` just so, or it is at the place of one
of these paths. When no path is left, there is nothing more than there was.

A path has its place for as long as no directory is gone (`Frame.place`), so the list may be worked
off at any time. It does not matter whether a file is deleted early or by two paths: a path may be
struck off once it was deleted, whether that succeeded or not.
-/

set_option autoImplicit false

namespace PageRegions
namespace FileTree

variable {t t' before : FileTree} {touched : List String → Prop} {path : String}
  {paths paths' : List String} {target other : List String} {entry found : Entry}

/-! ## Places of files -/

/-- A path has its place for as long as no directory is gone. -/
theorem Frame.place (h : Frame touched t t') {place : List String} {name : String} {slashed : Bool}
    (hplace : t.place path = .ok ⟨place, .name name, slashed⟩) :
    t'.place path = .ok ⟨place, .name name, slashed⟩ := by
  obtain ⟨hlength, hwalk, hdir, hlast, hshort, hslashed⟩ := place_eq_name hplace
  have hfound := h.directories place (of_decide_eq_true hdir)
  have hdir' : t'.isDirectory place = true := decide_eq_true hfound
  have hwalk' : t'.walk (t'.start (Written.ofText path)) (Written.ofText path).names.dropLast
      = .ok place := by
    unfold FileTree.start
    rw [h.here]
    exact h.walk hwalk (by rw [hfound]; rfl)
  unfold FileTree.place
  rw [hlength]
  simp only [hwalk', hdir', hlast, hslashed, Bool.not_true, Bool.false_eq_true, if_false,
    if_neg (Nat.not_lt.mpr hshort)]

/-- Whether a file of a path lies at a place, or would lie there. -/
def At (t : FileTree) (path : String) (target : List String) : Prop :=
  ∃ place name, t.place path = .ok ⟨place, .name name, false⟩ ∧ target = place ++ [name]

theorem Frame.at (h : Frame touched t t') (hat : t.At path target) : t'.At path target := by
  obtain ⟨place, name, hplace, rfl⟩ := hat
  exact ⟨place, name, h.place hplace, rfl⟩

/-! ## What is found after a change -/

theorem ne_nil_of_file (h : t.entry? target = some entry) (hfile : entry ≠ .directory) :
    target ≠ [] := by
  rintro rfl
  cases h
  exact hfile rfl

theorem found_of_add (h : FileTree.entry? (t.add target entry) other = some found)
    (hfile : found ≠ .directory) :
    t.entry? other = some found ∨ other = target ∧ found = entry := by
  have hne := ne_nil_of_file h hfile
  rw [entry?_of_ne_nil _ hne] at h ⊢
  obtain ⟨e, hfind, rfl⟩ := Option.map_eq_some_iff.mp h
  rw [add, List.find?_append, Option.or_eq_some_iff] at hfind
  rcases hfind with hold | ⟨-, hnew⟩
  · exact Or.inl (by rw [hold]; rfl)
  · have hmem := List.mem_of_find?_eq_some hnew
    have hplace := List.find?_some hnew
    rw [List.mem_singleton] at hmem
    subst hmem
    exact Or.inr ⟨(of_decide_eq_true hplace).symm, rfl⟩

theorem found_of_remove (h : FileTree.entry? (t.remove target) other = some found)
    (hfile : found ≠ .directory) : t.entry? other = some found ∧ other ≠ target := by
  have hother : other ≠ target := by
    rintro rfl
    rw [entry?_of_ne_nil _ (ne_nil_of_file h hfile)] at h
    obtain ⟨e, hfind, -⟩ := Option.map_eq_some_iff.mp h
    have hplace := List.find?_some hfind
    rw [decide_eq_true_eq] at hplace
    exact of_decide_eq_true (List.mem_filter.mp (List.mem_of_find?_eq_some hfind)).2 hplace
  rw [entry?_remove_of_ne hother] at h
  exact ⟨h, hother⟩

/-- Deleting a file makes none. -/
theorem found_of_deleteFile (h : FileTree.entry? (t.deleteFile path).2 other = some found)
    (hfile : found ≠ .directory) : t.entry? other = some found := by
  rcases t.deleteFile_removes path with heq | ⟨_, _, _, _, heq⟩ <;> rw [heq] at h
  · exact h
  · exact (found_of_remove h hfile).1

/-- **Deleting a file by its path succeeds**, wherever the path has it. -/
theorem At.deleteFile (hat : t.At path target) (hfound : t.entry? target = some found)
    (hfile : found ≠ .directory) : t.deleteFile path = (.ok (), t.remove target) := by
  obtain ⟨place, name, hplace, rfl⟩ := hat
  unfold FileTree.deleteFile unlink
  rw [hplace]
  simp only [hfound]
  cases found with
  | directory => exact absurd rfl hfile
  | file | device => rfl

theorem deleteFile_frame_true (t : FileTree) (path : String) :
    Frame (fun _ => True) t (t.deleteFile path).2 := by
  rcases t.deleteFile_removes path with heq | ⟨place, name, -, hfile, heq⟩ <;> rw [heq]
  · exact .refl t
  · exact (frame_remove hfile).mono fun _ _ => trivial

/-! ## Traces -/

/-- Whether all that was not there before, or not so, is at the places of the given paths.
Directories do not count. -/
def Traced (before : FileTree) (paths : List String) (t : FileTree) : Prop :=
  ∀ target entry, t.entry? target = some entry → entry ≠ .directory →
    before.entry? target = some entry ∨ ∃ path ∈ paths, t.At path target

theorem Traced.refl (t : FileTree) : Traced t [] t := fun _ _ h _ => Or.inl h

theorem Traced.mono (ht : Traced before paths t) (hsub : paths ⊆ paths') :
    Traced before paths' t := by
  intro target entry h hfile
  rcases ht target entry h hfile with hold | ⟨path, hmem, hat⟩
  · exact Or.inl hold
  · exact Or.inr ⟨path, hsub hmem, hat⟩

/-- A change traces what it makes, or makes something else of. -/
theorem Traced.step (ht : Traced before paths t) (hframe : Frame touched t t')
    (hsub : paths ⊆ paths')
    (hnew : ∀ target entry, FileTree.entry? t' target = some entry → entry ≠ .directory →
      t.entry? target = some entry ∨ ∃ path ∈ paths', t'.At path target) :
    Traced before paths' t' := by
  intro target entry h hfile
  rcases hnew target entry h hfile with hold | hnew
  · rcases ht target entry hold hfile with hbefore | ⟨path, hmem, hat⟩
    · exact Or.inl hbefore
    · exact Or.inr ⟨path, hsub hmem, hframe.at hat⟩
  · exact Or.inr hnew

theorem Traced.ensureDirectories (ht : Traced before paths t) (path : String) :
    Traced before paths (t.ensureDirectories path).2 := by
  refine ensureDirectories_keeps (fun t path place name slashed ht hplace => ?_) ht path
  have hframe : Frame (fun _ => True) t (t.add (place ++ [name]) .directory) :=
    frame_add_place hplace
  refine ht.step hframe (List.Subset.refl _) fun target entry h hfile => ?_
  rcases found_of_add h hfile with hold | ⟨-, rfl⟩
  · exact Or.inl hold
  · exact absurd rfl hfile

/-- Deleting files leaves nothing that was not there. -/
theorem Traced.deleteFile (ht : Traced before paths t) (path : String) :
    Traced before paths (t.deleteFile path).2 :=
  ht.step (t.deleteFile_frame_true path) (List.Subset.refl _) fun _ _ h hfile =>
    Or.inl (found_of_deleteFile h hfile)

/-- **A path is struck off when its file is deleted.** -/
theorem Traced.struckOff (ht : Traced before (path :: paths) t) :
    Traced before paths (t.deleteFile path).2 := by
  intro target entry h hfile
  have hfound := found_of_deleteFile h hfile
  rcases ht target entry hfound hfile with hold | ⟨other, hmem, hat⟩
  · exact Or.inl hold
  · rcases List.mem_cons.mp hmem with rfl | hmem
    · rw [hat.deleteFile hfound hfile] at h
      exact absurd rfl (found_of_remove h hfile).2
    · exact Or.inr ⟨other, hmem, (t.deleteFile_frame_true path).at hat⟩

/-- The file that is opened is traced by its path, whether it is made or not. -/
theorem Traced.openFile {block : Nat} (ht : Traced before paths t)
    (hopen : t.openFile block path = .ok (target, t')) :
    t'.At path target ∧ Traced before (path :: paths) t' := by
  have hframe : Frame (fun _ => True) t t' := (openFile_frame hopen).1
  obtain ⟨⟨place, name, hplace, rfl⟩, hmade⟩ := openFile_ok hopen
  have hat := hframe.at ⟨place, name, hplace, rfl⟩
  refine ⟨hat, ht.step hframe (List.subset_cons_self _ _) fun other entry h hfile => ?_⟩
  rcases hmade with ⟨-, rfl⟩ | ⟨-, rfl⟩
  · rcases found_of_add h hfile with hold | ⟨rfl, -⟩
    · exact Or.inl hold
    · exact Or.inr ⟨path, List.mem_cons_self, hat⟩
  · exact Or.inl h

/-- A file that is traced may be given another size. -/
theorem Traced.resize (ht : Traced before paths t) (hpath : path ∈ paths) (hat : t.At path target)
    (size : Nat) : Traced before paths (t.resize target size) := by
  have hframe := t.frame_resize target size
  refine ht.step hframe (List.Subset.refl _) fun other entry h _ => ?_
  by_cases hother : other = target
  · rw [hother]
    exact Or.inr ⟨path, hpath, hframe.at hat⟩
  · rw [entry?_resize] at h
    obtain ⟨old, hold, rfl⟩ := Option.map_eq_some_iff.mp h
    refine Or.inl ?_
    rw [hold]
    cases old with
    | file => rw [sized, if_neg hother]
    | directory | device => rfl

end FileTree
end PageRegions
