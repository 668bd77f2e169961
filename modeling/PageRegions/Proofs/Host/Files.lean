import PageRegions.Host.Host
import PageRegions.Proofs.Host.Paths

/-!
# Files and the blocks of memory that they show

The bytes of a file lie in a block of memory, and a block outlives its file: who maps a file and
deletes it keeps the block. So whether two mappings can share memory is a question about all files
there ever were. `Host.Sound` says that the files of a host have blocks of their own, and
`Host.Later` says of a host that comes after another what keeps blocks apart for good: a file is an
old one, or its block is new. Both hold along whatever is done to files and memory.
-/

set_option autoImplicit false

namespace PageRegions

namespace FileTree

variable {t : FileTree} {path : List String} {block : Nat}

/-- Whether there is a file at a path whose bytes lie in a block. -/
def Shows (t : FileTree) (path : List String) (block : Nat) : Prop :=
  ∃ size, (path, .file block size) ∈ t.entries

theorem shows_add {target : List String} {entry : Entry} (h : (t.add target entry).Shows path block) :
    t.Shows path block ∨ path = target ∧ ∃ size, entry = .file block size := by
  obtain ⟨size, hmem⟩ := h
  rcases List.mem_append.mp hmem with hold | hnew
  · exact Or.inl ⟨size, hold⟩
  · obtain ⟨rfl, rfl⟩ := Prod.mk.inj (List.mem_singleton.mp hnew)
    exact Or.inr ⟨rfl, size, rfl⟩

theorem shows_of_add_directory {target : List String}
    (h : (t.add target .directory).Shows path block) : t.Shows path block := by
  rcases shows_add h with hold | ⟨-, size, hentry⟩
  · exact hold
  · cases hentry

theorem shows_of_remove {target : List String} (h : (t.remove target).Shows path block) :
    t.Shows path block := by
  obtain ⟨size, hmem⟩ := h
  exact ⟨size, (List.mem_filter.mp hmem).1⟩

theorem shows_resize {target : List String} {size : Nat} :
    (t.resize target size).Shows path block ↔ t.Shows path block := by
  unfold Shows resize
  simp only [List.mem_map]
  constructor
  · rintro ⟨size', ⟨p, _ | ⟨b, old⟩ | _⟩, hmem, heq⟩ <;> simp only [Prod.mk.injEq] at heq
    · exact absurd heq.2 nofun
    · obtain ⟨rfl, hentry⟩ := heq
      cases hentry
      exact ⟨old, hmem⟩
    · exact absurd heq.2 nofun
  · rintro ⟨old, hmem⟩
    exact ⟨_, _, hmem, rfl⟩

theorem shows_of_entry? {size : Nat} (h : t.entry? path = some (.file block size)) :
    t.Shows path block := by
  unfold entry? at h
  split at h
  · cases h
  · obtain ⟨⟨p, entry⟩, hfind, heq⟩ := Option.map_eq_some_iff.mp h
    have hp := List.find?_some hfind
    simp only [decide_eq_true_eq] at hp heq
    subst hp heq
    exact ⟨size, List.mem_of_find?_eq_some hfind⟩

/-! ## What the host does to the tree -/

/-- Deleting a file removes what lies at the place of the path, if anything. -/
theorem deleteFile_removes (t : FileTree) (path : String) :
    (t.deleteFile path).2 = t
      ∨ ∃ place name, t.place path = .ok ⟨place, .name name, false⟩
        ∧ t.entry? (place ++ [name]) ≠ some .directory
        ∧ (t.deleteFile path).2 = t.remove (place ++ [name]) := by
  unfold deleteFile unlink
  cases hplace : t.place path with
  | error e => exact Or.inl rfl
  | ok place =>
    obtain ⟨directory, last, slashed⟩ := place
    cases last with
    | root | here | up => exact Or.inl rfl
    | name name =>
      simp only
      cases hentry : t.entry? (directory ++ [name]) with
      | none => exact Or.inl rfl
      | some entry =>
        cases entry with
        | directory => exact Or.inl rfl
        | file | device =>
          cases slashed with
          | true => exact Or.inl rfl
          | false => exact Or.inr ⟨directory, name, rfl, by rw [hentry]; exact nofun, rfl⟩

theorem makeDirectory_ok {text : String} {t' : FileTree} (h : t.makeDirectory text = .ok t') :
    ∃ place name slashed, t.place text = .ok ⟨place, .name name, slashed⟩
      ∧ t.entry? (place ++ [name]) = none ∧ t' = t.add (place ++ [name]) .directory := by
  unfold makeDirectory at h
  split at h
  · cases h
  · next place name slashed hplace =>
    simp only at h
    split at h
    · cases h
    · next hmissing =>
      cases h
      exact ⟨place, name, slashed, hplace, by simpa using hmissing, rfl⟩
  · cases h

/-- A directory is made at its place, or nothing is. -/
theorem ensureDirectory_cases (t : FileTree) (text : String) :
    ((t.ensureDirectory text).2 = t
        ∧ ((t.ensureDirectory text).1 = .ok () → t.isDirectoryText text = true))
      ∨ ∃ place name slashed, t.place text = .ok ⟨place, .name name, slashed⟩
        ∧ t.entry? (place ++ [name]) = none
        ∧ (t.ensureDirectory text).2 = t.add (place ++ [name]) .directory := by
  unfold ensureDirectory
  split
  · next t' hmake =>
    obtain ⟨place, name, slashed, hplace, hmissing, rfl⟩ := makeDirectory_ok hmake
    exact Or.inr ⟨place, name, slashed, hplace, hmissing, rfl⟩
  · split
    · next hdirectory => exact Or.inl ⟨rfl, fun _ => hdirectory⟩
    · exact Or.inl ⟨rfl, nofun⟩
  · exact Or.inl ⟨rfl, nofun⟩

/-- What adding a directory keeps is kept when a directory is made with those it lies in. -/
theorem ensureDirectories_keeps {I : FileTree → Prop}
    (hadd : ∀ t path place name slashed, I t → t.place path = .ok ⟨place, .name name, slashed⟩ →
      I (t.add (place ++ [name]) .directory)) (ht : I t) (path : String) :
    I (t.ensureDirectories path).2 := by
  have hone : ∀ t path, I t → I (t.ensureDirectory path).2 := by
    intro t path ht
    rcases t.ensureDirectory_cases path with
      ⟨heq, -⟩ | ⟨place, name, slashed, hplace, -, heq⟩ <;> rw [heq]
    · exact ht
    · exact hadd t path place name slashed ht hplace
  have hpath : ∀ path : List Char, I (t.ensurePath path).2 := by
    intro path
    fun_induction t.ensurePath path with
    | case1 => exact ht
    | case2 => exact hone _ _ ht
    | case3 path _ fault hcheck parent hparent fault' t' hout ih =>
      rw [hout] at ih
      exact ih
    | case4 path _ fault hcheck parent hparent t' hout ih =>
      rw [hout] at ih
      exact hone _ _ ih
  unfold ensureDirectories
  split
  · exact ht
  · exact hpath path.toList

/-! ## What makes no file -/

/-- A tree has no file that another one has not. -/
def NoNew (t t' : FileTree) : Prop := ∀ path block, t'.Shows path block → t.Shows path block

theorem NoNew.refl (t : FileTree) : NoNew t t := fun _ _ h => h

theorem NoNew.trans {t' t'' : FileTree} (h : NoNew t t') (h' : NoNew t' t'') : NoNew t t'' :=
  fun path block hshows => h path block (h' path block hshows)

theorem deleteFile_noNew (t : FileTree) (path : String) : NoNew t (t.deleteFile path).2 := by
  rcases t.deleteFile_removes path with heq | ⟨_, _, _, _, heq⟩ <;> rw [heq]
  · exact .refl t
  · exact fun _ _ => shows_of_remove

theorem ensureDirectories_noNew (t : FileTree) (path : String) :
    NoNew t (t.ensureDirectories path).2 :=
  ensureDirectories_keeps (fun _ _ _ _ _ hkept _ => hkept.trans fun _ _ => shows_of_add_directory)
    (.refl t) path

/-- A file that is opened was there, or it is the only new one and has the block it was given. -/
theorem shows_openFile {target : List String} {t' : FileTree} {new : Nat} {text : String}
    (hopen : t.openFile new text = .ok (target, t')) (h : t'.Shows path block) :
    t.Shows path block ∨ path = target ∧ block = new := by
  obtain ⟨-, ⟨-, rfl⟩ | ⟨-, rfl⟩⟩ := openFile_ok hopen
  · rcases shows_add h with hold | ⟨hpath, size, hentry⟩
    · exact Or.inl hold
    · cases hentry
      exact Or.inr ⟨hpath, rfl⟩
  · exact Or.inl h

end FileTree

namespace Host

/-- The files of a host have blocks of their own, which were given to them. -/
structure Sound (h : Host) : Prop where
  below : ∀ path block, h.files.Shows path block → block < h.nextBlock
  unique : ∀ path path' block, h.files.Shows path block → h.files.Shows path' block → path = path'

/-- A host after another: what shows a block that was given away before is a file from before. -/
structure Later (h k : Host) : Prop where
  next : h.nextBlock ≤ k.nextBlock
  files : ∀ path block, k.files.Shows path block → h.files.Shows path block ∨ h.nextBlock ≤ block
  sound : h.Sound → k.Sound

variable {h k k' : Host}

theorem Later.refl (h : Host) : Later h h := ⟨Nat.le_refl _, fun _ _ hs => Or.inl hs, id⟩

theorem Later.trans (hk : Later h k) (hk' : Later k k') : Later h k' where
  next := Nat.le_trans hk.next hk'.next
  files path block hshows := by
    rcases hk'.files path block hshows with hold | hnew
    · exact hk.files path block hold
    · exact Or.inr (Nat.le_trans hk.next hnew)
  sound hsound := hk'.sound (hk.sound hsound)

/-- Whatever makes no file keeps blocks apart. -/
theorem Later.of_noNew (hnext : h.nextBlock ≤ k.nextBlock) (hfiles : h.files.NoNew k.files) :
    Later h k where
  next := hnext
  files path block hshows := Or.inl (hfiles path block hshows)
  sound hsound := {
    below := fun path block hshows =>
      Nat.lt_of_lt_of_le (hsound.below path block (hfiles path block hshows)) hnext
    unique := fun path path' block hshows hshows' =>
      hsound.unique path path' block (hfiles _ _ hshows) (hfiles _ _ hshows') }

/-- Neither the bytes of memory nor the clock nor what was logged matters. -/
theorem Later.congr (hnext : k.nextBlock = h.nextBlock) (hfiles : k.files = h.files) :
    Later h k :=
  .of_noNew (Nat.le_of_eq hnext.symm) (by rw [hfiles]; exact .refl _)

theorem later_note (h : Host) (level : LogLevel) (text : String) : Later h (h.note level text) :=
  .congr rfl rfl

theorem later_writeBlock (h : Host) (block address : Nat) (bytes : List UInt8) :
    Later h (h.writeBlock block address bytes) :=
  .congr rfl rfl

theorem later_resize (h : Host) (path : List String) (size : Nat) :
    Later h { h with files := h.files.resize path size } :=
  .of_noNew (Nat.le_refl _) fun _ _ hshows => FileTree.shows_resize.mp hshows

theorem deleteFile_eq (h : Host) (path : String) :
    ∃ files, h.files.NoNew files ∧ (h.deleteFile path).2 = { h with files := files } := by
  have hfiles := h.files.deleteFile_noNew path
  unfold deleteFile
  generalize h.files.deleteFile path = out at hfiles
  exact ⟨out.2, hfiles, rfl⟩

theorem later_deleteFile (h : Host) (path : String) : Later h (h.deleteFile path).2 := by
  obtain ⟨files, hfiles, heq⟩ := h.deleteFile_eq path
  rw [heq]
  exact .of_noNew (Nat.le_refl _) hfiles

theorem later_ensureDirectories (h : Host) (path : String) :
    Later h (h.ensureDirectories path).2 := by
  have hfiles := h.files.ensureDirectories_noNew path
  unfold ensureDirectories
  generalize h.files.ensureDirectories path = out at hfiles
  exact .of_noNew (Nat.le_refl _) hfiles

/-! ## Opening and mapping -/

/-- What opening a file can end in. Its block, if the file is made, is a new one. -/
inductive Opening (h : Host) (path : String) : Except HostError (List String) × Host → Prop
  | opened (target : List String) (files : FileTree)
      (opened : h.files.openFile h.nextBlock path = .ok (target, files)) :
      Opening h path (.ok target, { h with files := files, nextBlock := h.nextBlock + 1 })
  | failed (e : HostError) : Opening h path (.error e, h)

theorem openFile_opening (h : Host) (path : String) : Opening h path (h.openFile path) := by
  unfold openFile
  split
  · next target files hopen => exact .opened target files hopen
  · next e _ => exact .failed e

theorem later_openFile {path : String} {target : List String} {files : FileTree}
    (hopen : h.files.openFile h.nextBlock path = .ok (target, files)) :
    Later h { h with files := files, nextBlock := h.nextBlock + 1 } := by
  have hshows : ∀ path block, files.Shows path block →
      h.files.Shows path block ∨ path = target ∧ block = h.nextBlock :=
    fun _ _ => FileTree.shows_openFile hopen
  refine ⟨Nat.le_succ _, fun path block hs => ?_, fun hsound => ⟨fun path block hs => ?_, ?_⟩⟩
  · rcases hshows path block hs with hold | ⟨-, rfl⟩
    · exact Or.inl hold
    · exact Or.inr (Nat.le_refl _)
  · rcases hshows path block hs with hold | ⟨-, rfl⟩
    · exact Nat.lt_succ_of_lt (hsound.below path block hold)
    · exact Nat.lt_succ_self _
  · intro path path' block hs hs'
    rcases hshows path block hs with hold | ⟨rfl, rfl⟩ <;>
      rcases hshows path' _ hs' with hold' | ⟨rfl, hnew⟩
    · exact hsound.unique path path' block hold hold'
    · exact absurd (hsound.below path block hold) (by omega)
    · exact absurd (hsound.below path' _ hold') (Nat.lt_irrefl _)
    · rfl

/-- An attempt to map is counted, and that is all. -/
theorem attempt_eq (h : Host) (length : UInt64) :
    ∃ attempts, (h.attempt length).2 = { h with attempts := attempts } := by
  unfold attempt
  split <;> exact ⟨_, rfl⟩

/-- A mapping of fresh memory shows a block that nothing showed. -/
theorem mapAnonymous_eq (h : Host) (length : UInt64) :
    ∃ attempts, h.mapAnonymous length = (⟨none, length⟩, { h with attempts := attempts })
      ∨ h.mapAnonymous length = (⟨some h.nextBlock, length⟩,
        { h with attempts := attempts, nextBlock := h.nextBlock + 1 }) := by
  obtain ⟨attempts, heq⟩ := h.attempt_eq length
  unfold mapAnonymous
  generalize h.attempt length = out at heq
  obtain ⟨_ | _, k⟩ := out <;> cases heq
  · exact ⟨attempts, Or.inl rfl⟩
  · exact ⟨attempts, Or.inr rfl⟩

theorem mapBlock_eq (h : Host) (block : Nat) (length : UInt64) :
    ∃ attempts, h.mapBlock block length = (⟨none, length⟩, { h with attempts := attempts })
      ∨ h.mapBlock block length = (⟨some block, length⟩, { h with attempts := attempts }) := by
  obtain ⟨attempts, heq⟩ := h.attempt_eq length
  unfold mapBlock
  generalize h.attempt length = out at heq
  obtain ⟨_ | _, k⟩ := out <;> cases heq
  · exact ⟨attempts, Or.inl rfl⟩
  · exact ⟨attempts, Or.inr rfl⟩

end Host
end PageRegions
