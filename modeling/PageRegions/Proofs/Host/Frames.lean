import PageRegions.Proofs.Host.Files

/-!
# What a change of the files leaves alone

A `Frame` says of two trees, one after the other, which paths may have been touched. Whatever lies
elsewhere is as it was, and no directory is gone. So a path that led to a directory, or to a file
that was not touched, leads there still (`Frame.finds`).

Names that are written behind a directory lie right in it (`Finds.of_behind`), and what is deleted
by such a path lies there too. This takes names as a directory can hold them (`IsName`): with a
slash in it a name might lead anywhere.
-/

set_option autoImplicit false

namespace PageRegions

namespace FileTree

open Text

variable {t t' t'' : FileTree} {path : String} {target : List String} {entry : Entry}

/-- A path leads to a place, and that is found there. -/
structure Finds (t : FileTree) (path : String) (target : List String) (entry : Entry) :
    Prop where
  resolves : t.resolve path = .ok target
  found : t.entry? target = some entry

/-- A name that a directory can hold. -/
structure IsName (name : String) : Prop where
  ne_empty : name.toList ≠ []
  ne_here : name ≠ "."
  ne_up : name ≠ ".."
  slash : '/' ∉ name.toList
  nul : '\x00' ∉ name.toList

/-- All that lies in directories has such a name. -/
def Proper (t : FileTree) : Prop :=
  ∀ e ∈ t.entries, ∀ name, e.1.getLast? = some name → IsName name

theorem scratch_proper : scratch.Proper := by
  intro e he name hlast
  have hnames : ∀ e ∈ scratch.entries,
      e.1.getLast? ∈ ["tmp", "session", "dev", "null", "full"].map some := by decide +kernel
  obtain ⟨other, hother, heq⟩ := List.mem_map.mp (hnames e he)
  rw [hlast] at heq
  cases heq
  have hall : ∀ name ∈ ["tmp", "session", "dev", "null", "full"], name.toList ≠ [] ∧ name ≠ "."
      ∧ name ≠ ".." ∧ '/' ∉ name.toList ∧ '\x00' ∉ name.toList := by decide +kernel
  obtain ⟨hempty, hhere, hup, hslash, hnul⟩ := hall name hother
  exact ⟨hempty, hhere, hup, hslash, hnul⟩

/-- What may have become of a tree when nothing but the touched paths was changed: there can be more
in it, and there are no fewer directories. -/
structure Frame (touched : List String → Prop) (t t' : FileTree) : Prop where
  here : t'.here = t.here
  directories : ∀ target, t.entry? target = some .directory →
    FileTree.entry? t' target = some .directory
  elsewhere : ∀ target entry, t.entry? target = some entry → ¬ touched target →
    FileTree.entry? t' target = some entry
  proper : t.Proper → t'.Proper

variable {touched touched' : List String → Prop}

theorem Frame.refl (t : FileTree) : Frame touched t t :=
  ⟨rfl, fun _ h => h, fun _ _ h _ => h, id⟩

theorem Frame.trans (h : Frame touched t t') (h' : Frame touched t' t'') :
    Frame touched t t'' where
  here := h'.here.trans h.here
  directories target hdir := h'.directories target (h.directories target hdir)
  elsewhere target entry hentry hout :=
    h'.elsewhere target entry (h.elsewhere target entry hentry hout) hout
  proper hproper := h'.proper (h.proper hproper)

theorem Frame.mono (h : Frame touched t t') (hsub : ∀ target, touched target → touched' target) :
    Frame touched' t t' :=
  { h with elsewhere := fun target entry hentry hout =>
      h.elsewhere target entry hentry fun htouched => hout (hsub target htouched) }

/-- If what is at each place stays, nothing was touched. -/
theorem Frame.of_kept (hhere : t'.here = t.here)
    (hkept : ∀ target entry, t.entry? target = some entry →
      FileTree.entry? t' target = some entry)
    (hproper : t.Proper → t'.Proper) : Frame touched t t' :=
  ⟨hhere, fun target => hkept target .directory, fun target entry h _ => hkept target entry h,
    hproper⟩

/-! ## Walks and paths -/

/-- A step that leads to what is still there can be made again. -/
theorem Frame.walkStep (h : Frame touched t t') {start : List String} {name : String}
    (hstep : t.walkStep start name = .ok target)
    (hfound : (FileTree.entry? t' target).isSome = true) :
    t'.walkStep start name = .ok target := by
  obtain ⟨hdir, hstep⟩ := walkStep_ok.mp hstep
  refine walkStep_ok.mpr ⟨h.directories start hdir, ?_⟩
  cases hstep with
  | here => exact .here
  | up => exact .up
  | into _ hhere hup hshort _ => exact .into name hhere hup hshort hfound

/-- A walk leads where it led if that is still there. -/
theorem Frame.walk (h : Frame touched t t') {names : List String} {start : List String}
    (hwalk : t.walk start names = .ok target)
    (hfound : (FileTree.entry? t' target).isSome = true) :
    t'.walk start names = .ok target := by
  induction names generalizing start with
  | nil => exact hwalk
  | cons name names ih =>
    obtain ⟨next, hstep, hmore⟩ := walk_cons_ok.mp hwalk
    refine walk_cons_ok.mpr ⟨next, h.walkStep hstep ?_, ih hmore⟩
    cases names with
    | nil =>
      cases hmore
      exact hfound
    | cons second names =>
      -- What another step was made from is a directory.
      obtain ⟨_, hsecond, _⟩ := walk_cons_ok.mp hmore
      rw [h.directories next (walkStep_ok.mp hsecond).1]
      rfl

/-- **What was not touched is found where it was.** -/
theorem Frame.finds (h : Frame touched t t') (hfinds : t.Finds path target entry)
    (hout : entry = .directory ∨ ¬ touched target) : t'.Finds path target entry := by
  have hfound : FileTree.entry? t' target = some entry := by
    rcases hout with rfl | hout
    · exact h.directories target hfinds.found
    · exact h.elsewhere target entry hfinds.found hout
  obtain ⟨hlength, hwalk, hslashed⟩ := resolve_ok.mp hfinds.resolves
  refine ⟨resolve_ok.mpr ⟨hlength, ?_, fun h => ?_⟩, hfound⟩
  · unfold FileTree.start
    rw [h.here]
    exact h.walk hwalk (by rw [hfound]; rfl)
  · rw [hfound, ← hfinds.found]
    exact hslashed h

theorem Finds.place_unique {place place' : List String} {entry' : Entry}
    (h : t.Finds path place entry) (h' : t.Finds path place' entry') : place = place' :=
  Except.ok.inj (h.resolves.symm.trans h'.resolves)

/-! ## Names behind a directory -/

theorem mem_pieces {delimiter : Char} {s piece : List Char} (h : piece ∈ pieces delimiter s) :
    delimiter ∉ piece ∧ piece ⊆ s := by
  induction s generalizing piece with
  | nil => exact absurd h List.not_mem_nil
  | cons c s ih =>
    by_cases hc : c = delimiter
    · rw [hc, pieces_delimiter, List.mem_cons] at h
      rcases h with rfl | h
      · exact ⟨List.not_mem_nil, List.nil_subset _⟩
      · exact ⟨(ih h).1, List.subset_cons_of_subset c (ih h).2⟩
    · cases hs : pieces delimiter s with
      | nil =>
        rw [pieces, if_neg hc, hs, List.mem_singleton] at h
        rw [h, List.mem_singleton]
        exact ⟨Ne.symm hc, List.cons_subset_cons c (List.nil_subset s)⟩
      | cons first more =>
        rw [pieces_cons hc hs, List.mem_cons] at h
        rw [hs] at ih
        rcases h with rfl | h
        · obtain ⟨hout, hsub⟩ := ih List.mem_cons_self
          rw [List.mem_cons, not_or]
          exact ⟨⟨Ne.symm hc, hout⟩, List.cons_subset_cons c hsub⟩
        · obtain ⟨hout, hsub⟩ := ih (List.mem_cons_of_mem first h)
          exact ⟨hout, List.subset_cons_of_subset c hsub⟩

/-- The last name of a path is one that a directory can hold. -/
theorem isName_of_last {name : String}
    (h : Last.ofNames (Written.ofText path).names = .name name) : IsName name := by
  obtain ⟨hlast, hhere, hup⟩ := Last.ofNames_eq_name h
  rw [Written.names_ofText] at hlast
  obtain ⟨piece, hpiece, rfl⟩ := List.mem_map.mp (List.mem_of_getLast? hlast)
  obtain ⟨hmem, hne⟩ := List.mem_filter.mp hpiece
  obtain ⟨hslash, hsub⟩ := mem_pieces hmem
  refine ⟨?_, hhere, hup, ?_, ?_⟩ <;> rw [String.toList_ofList]
  · exact of_decide_eq_true hne
  · exact hslash
  · intro hnul
    have hvisible := hsub hnul
    rw [visible, String.toList_ofList, beforeNul] at hvisible
    exact absurd (List.mem_takeWhile_imp (p := fun c => decide (c ≠ '\x00')) hvisible) (by decide)

theorem isName_of_children (ht : t.Proper) {place : List String} {name : String}
    (hname : name ∈ t.children place) : IsName name := by
  obtain ⟨e, he, hlast⟩ := List.mem_filterMap.mp hname
  split at hlast
  · exact ht e he name hlast
  · cases hlast

/-- A text of a directory that a name can be written behind. -/
structure IsBase (directory : String) : Prop where
  ne_empty : directory ≠ ""
  nul : '\x00' ∉ directory.toList

/-- Whether a place has the given name in the directory that a path leads to. -/
def Behind (t : FileTree) (directory name : String) (target : List String) : Prop :=
  ∃ place, t.Finds directory place .directory ∧ target = place ++ [name]

theorem Frame.behind (h : Frame touched t t') {directory name : String}
    (htarget : t.Behind directory name target) : t'.Behind directory name target := by
  obtain ⟨place, hfinds, rfl⟩ := htarget
  exact ⟨place, h.finds hfinds (Or.inl rfl), rfl⟩

section Behind

variable {directory name : String}

theorem names_behind (hbase : IsBase directory) (hname : IsName name) :
    (Written.ofText (directory ++ "/" ++ name)).names = (Written.ofText directory).names ++ [name] :=
  Written.names_behind hbase.nul hname.nul hname.slash hname.ne_empty

theorem start_behind (hbase : IsBase directory) (hname : IsName name) :
    t.start (Written.ofText (directory ++ "/" ++ name)) = t.start (Written.ofText directory) := by
  have hdirectory : directory.toList ≠ [] := fun h => hbase.ne_empty (String.toList_eq_nil_iff.mp h)
  have habsolute : (Written.ofText (directory ++ "/" ++ name)).absolute
      = (Written.ofText directory).absolute := by
    rw [Written.absolute_ofText, Written.absolute_ofText, visible_behind hbase.nul hname.nul,
      visible_of_notMem hbase.nul, toList_behind, List.head?_append_of_ne_nil _ hdirectory]
  unfold FileTree.start
  rw [habsolute]

theorem slashed_behind (hbase : IsBase directory) (hname : IsName name) :
    (Written.ofText (directory ++ "/" ++ name)).slashed = false := by
  rw [Written.slashed_ofText, visible_behind hbase.nul hname.nul, toList_behind,
    List.getLast?_append_of_ne_nil _ (List.cons_ne_nil _ _),
    List.getLast?_cons_of_ne_nil hname.ne_empty]
  exact decide_eq_false fun hlast => hname.slash (List.mem_of_getLast? hlast)

theorem checkLength_behind (hbase : IsBase directory) (hname : IsName name)
    (h : checkLength (directory ++ "/" ++ name) = .ok ()) : checkLength directory = .ok () := by
  have hdirectory : directory.length ≠ 0 := fun h => hbase.ne_empty (String.length_eq_zero_iff.mp h)
  unfold checkLength at h ⊢
  rw [visible_behind hbase.nul hname.nul] at h
  rw [visible_of_notMem hbase.nul]
  simp only [String.length_append] at h ⊢
  rw [if_neg hdirectory]
  split at h
  · cases h
  split at h
  · cases h
  · exact if_neg (by omega)

theorem ofNames_concat (hname : IsName name) (names : List String) :
    Last.ofNames (names ++ [name]) = .name name := by
  unfold Last.ofNames
  rw [List.getLast?_concat]
  split
  · cases ‹_›
  · cases ‹some name = some "."›
    exact absurd rfl hname.ne_here
  · cases ‹some name = some ".."›
    exact absurd rfl hname.ne_up
  · cases ‹_›
    rfl

/-- **Behind a directory a path names what lies right in it.** -/
theorem place_behind (hbase : IsBase directory) (hname : IsName name) {p : Place}
    (h : t.place (directory ++ "/" ++ name) = .ok p) :
    ∃ place, p = ⟨place, .name name, false⟩ ∧ t.Finds directory place .directory := by
  have hlast := ofNames_concat hname (Written.ofText directory).names
  unfold place at h
  split at h
  · cases h
  next hlength =>
  simp only [names_behind hbase hname, start_behind hbase hname, slashed_behind hbase hname,
    List.dropLast_concat, hlast] at h
  split at h
  · cases h
  next place hwalk =>
  split at h
  · cases h
  next hdir =>
  split at h
  · cases h
  cases h
  have hfound : t.entry? place = some .directory := by simpa [isDirectory] using hdir
  exact ⟨place, rfl, resolve_ok.mpr ⟨checkLength_behind hbase hname hlength, hwalk,
    fun _ => hfound⟩, hfound⟩

/-- What is found behind a directory lies in it. -/
theorem Finds.of_behind (hbase : IsBase directory) (hname : IsName name)
    (h : t.Finds (directory ++ "/" ++ name) target entry) : t.Behind directory name target := by
  obtain ⟨hlength, hwalk, -⟩ := resolve_ok.mp h.resolves
  rw [names_behind hbase hname, start_behind hbase hname] at hwalk
  obtain ⟨place, hplace, hstep⟩ := walk_concat_ok.mp hwalk
  obtain ⟨hfound, hstep⟩ := walkStep_ok.mp hstep
  refine ⟨place, ⟨resolve_ok.mpr ⟨checkLength_behind hbase hname hlength, hplace,
    fun _ => hfound⟩, hfound⟩, ?_⟩
  cases hstep with
  | here => exact absurd rfl hname.ne_here
  | up => exact absurd rfl hname.ne_up
  | into => rfl

end Behind

/-- What lies at the place that a path had is found by it, if only a directory is asked for by a
slash. -/
theorem Frame.finds_placed (h : Frame touched t t') {place : List String} {name : String}
    {slashed : Bool} (hplace : t.place path = .ok ⟨place, .name name, slashed⟩)
    (hfound : FileTree.entry? t' (place ++ [name]) = some entry)
    (hentry : slashed = true → entry = .directory) :
    t'.Finds path (place ++ [name]) entry := by
  obtain ⟨hlength, hwalk, hdir, hlast, hshort, hslashed⟩ := place_eq_name hplace
  obtain ⟨hname, hhere, hup⟩ := Last.ofNames_eq_name hlast
  have hdir' := h.directories place (of_decide_eq_true hdir)
  refine ⟨resolve_ok.mpr ⟨hlength, ?_, fun h => ?_⟩, hfound⟩
  · unfold FileTree.start
    rw [h.here, ← List.dropLast_append_getLast? name hname]
    refine walk_concat_ok.mpr ⟨place, h.walk hwalk (by rw [hdir']; rfl), ?_⟩
    exact walkStep_ok.mpr ⟨hdir', .into name hhere hup hshort (by rw [hfound]; rfl)⟩
  · rw [hfound, hentry (hslashed.trans h)]

/-- What lies at the place that a path had is found by it. -/
theorem Frame.finds_place (h : Frame touched t t') {place : List String} {name : String}
    (hplace : t.place path = .ok ⟨place, .name name, false⟩)
    (hfound : FileTree.entry? t' (place ++ [name]) = some entry) :
    t'.Finds path (place ++ [name]) entry :=
  h.finds_placed hplace hfound nofun

/-! ## Adding, removing, resizing -/

theorem entry?_of_ne_nil (t : FileTree) (hne : target ≠ []) :
    t.entry? target = (t.entries.find? fun e => e.1 = target).map (·.2) := if_neg hne

theorem frame_add {name : String} (hlast : target.getLast? = some name) (hname : IsName name) :
    Frame touched t (t.add target entry) := by
  refine .of_kept rfl (fun path found h => ?_) fun hproper e he other hother => ?_
  · by_cases hpath : path = []
    · subst hpath
      exact h
    rw [entry?_of_ne_nil _ hpath] at h ⊢
    obtain ⟨e, hfind, rfl⟩ := Option.map_eq_some_iff.mp h
    refine Option.map_eq_some_iff.mpr ⟨e, ?_, rfl⟩
    rw [add, List.find?_append, hfind, Option.some_or]
  · rcases List.mem_append.mp he with hold | hnew
    · exact hproper e hold other hother
    · rw [List.mem_singleton.mp hnew, hlast] at hother
      exact Option.some.inj hother ▸ hname

/-- What is added at the place of a path leaves all else alone. -/
theorem frame_add_place {place : List String} {name : String} {slashed : Bool}
    (hplace : t.place path = .ok ⟨place, .name name, slashed⟩) :
    Frame touched t (t.add (place ++ [name]) entry) := by
  obtain ⟨-, -, -, hlast, -⟩ := place_eq_name hplace
  exact frame_add List.getLast?_concat (isName_of_last hlast)

theorem entry?_add_self (hnone : t.entry? target = none) :
    FileTree.entry? (t.add target entry) target = some entry := by
  have hne : target ≠ [] := by
    rintro rfl
    cases hnone
  rw [entry?_of_ne_nil _ hne, Option.map_eq_none_iff] at hnone
  rw [entry?_of_ne_nil _ hne, add, List.find?_append, hnone]
  simp

theorem entry?_remove_of_ne {other : List String} (hother : other ≠ target) :
    FileTree.entry? (t.remove target) other = t.entry? other := by
  by_cases hne : other = []
  · subst hne
    rfl
  rw [entry?_of_ne_nil _ hne, entry?_of_ne_nil _ hne, remove, List.find?_filter]
  congr 2
  funext e
  by_cases he : e.1 = other
  · simp [he, hother]
  · simp [he]

theorem frame_remove (hfile : t.entry? target ≠ some .directory) :
    Frame (· = target) t (t.remove target) := by
  refine ⟨rfl, fun path hdir => ?_, fun path found h hout => ?_, fun hproper e he => ?_⟩
  · rw [entry?_remove_of_ne, hdir]
    rintro rfl
    exact hfile hdir
  · rw [entry?_remove_of_ne hout, h]
  · exact hproper e (List.mem_filter.mp he).1

/-- What lies at a path when the file at the target was given another size. -/
def sized (target path : List String) (size : Nat) : Entry → Entry
  | .file block old => .file block (if path = target then size else old)
  | other => other

theorem resize_eq (t : FileTree) (target : List String) (size : Nat) :
    t.resize target size
      = { t with entries := t.entries.map fun e => (e.1, sized target e.1 size e.2) } := by
  unfold resize
  congr 2
  funext ⟨p, e⟩
  cases e <;> rfl

theorem entry?_resize (t : FileTree) (target path : List String) (size : Nat) :
    FileTree.entry? (t.resize target size) path = (t.entry? path).map (sized target path size) := by
  rw [resize_eq]
  by_cases hne : path = []
  · subst hne
    rfl
  rw [entry?_of_ne_nil _ hne, entry?_of_ne_nil _ hne, List.find?_map]
  change (((t.entries.find? fun e => e.1 = path).map _).map _) = _
  cases hfind : t.entries.find? fun e => e.1 = path with
  | none => rfl
  | some e =>
    have hpath := List.find?_some hfind
    rw [decide_eq_true_iff] at hpath
    simp only [Option.map_some, hpath]

theorem frame_resize (t : FileTree) (target : List String) (size : Nat) :
    Frame (· = target) t (t.resize target size) := by
  refine ⟨rfl, fun path hdir => ?_, fun path found h hout => ?_, fun hproper e he name hlast => ?_⟩
  · rw [entry?_resize, hdir]
    rfl
  · rw [entry?_resize, h]
    cases found with
    | file => rw [Option.map_some, sized, if_neg hout]
    | directory | device => rfl
  · rw [resize_eq] at he
    obtain ⟨old, hold, rfl⟩ := List.mem_map.mp he
    exact hproper old hold name hlast

/-! ## What the host does to files -/

/-- A path behind a directory deletes nothing but what lies there. -/
theorem deleteFile_frame {directory name : String} (hbase : IsBase directory)
    (hname : IsName name) :
    Frame (t.Behind directory name) t (t.deleteFile (directory ++ "/" ++ name)).2 := by
  rcases t.deleteFile_removes (directory ++ "/" ++ name) with
    heq | ⟨place, last, hplace, hfile, heq⟩ <;> rw [heq]
  · exact .refl t
  · obtain ⟨place', hsame, hfinds⟩ := place_behind hbase hname hplace
    cases hsame
    exact (frame_remove hfile).mono fun target htarget => ⟨place, hfinds, htarget⟩

theorem ensureDirectories_frame (t : FileTree) (path : String) :
    Frame touched t (t.ensureDirectories path).2 := by
  refine ensureDirectories_keeps (fun t' path place name slashed hframe hplace => ?_) (.refl t) path
  exact hframe.trans (frame_add_place hplace)

/-- Opening a file changes none that was there. -/
theorem openFile_frame {block : Nat} (h : t.openFile block path = .ok (target, t')) :
    Frame touched t t' ∧ FileTree.entry? t' target ≠ some .directory := by
  obtain ⟨⟨place, name, hplace, rfl⟩, ⟨hnone, rfl⟩ | ⟨⟨found, hfound, hfile⟩, rfl⟩⟩ := openFile_ok h
  · refine ⟨frame_add_place hplace, ?_⟩
    rw [entry?_add_self hnone]
    exact nofun
  · refine ⟨.refl _, ?_⟩
    rw [hfound]
    exact fun hsame => hfile (Option.some.inj hsame)

end FileTree

namespace Host

theorem files_deleteFile (h : Host) (path : String) :
    (h.deleteFile path).2.files = (h.files.deleteFile path).2 := by
  unfold Host.deleteFile
  cases h.files.deleteFile path
  rfl

theorem files_ensureDirectories (h : Host) (path : String) :
    (h.ensureDirectories path).2.files = (h.files.ensureDirectories path).2 := by
  unfold Host.ensureDirectories
  cases h.files.ensureDirectories path
  rfl

end Host
end PageRegions
