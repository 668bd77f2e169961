import PageRegions.Proofs.Host.Frames
import PageRegions.Proofs.Memory.Announcing

/-!
# The files of a provider

A provider that maps files has one file for each chunk, in the directory that it was given, and as
long as a chunk is mapped its file is there and is the one that is mapped (`Held`). Whatever such a
provider makes, deletes or gives another size lies right in its directory (`Backing.Within`): the
files of chunks have names that a directory can hold, and so have those that an earlier run left
there. All this takes a directory behind whose text a name can be written (`Backing.Named`).

A provider of fresh memory has no files and touches none.
-/

set_option autoImplicit false

namespace PageRegions

open FileTree

/-- Whether the file of a path is the one that is mapped: it is there, with the block of the mapping
and of its length. -/
def Mapping.InFile (m : Mapping) (t : FileTree) (path : String) : Prop :=
  ∃ target block, t.Finds path target (.file block m.length.toNat) ∧ m.block? = some block

namespace Backing

/-- Whether names can be written behind the directory of a backing. -/
def Named (b : Backing) : Prop := ∀ directory, b = .files directory → IsBase directory

/-- Whether a place is right in the directory of a backing. -/
def Claims (b : Backing) (t : FileTree) (target : List String) : Prop :=
  ∃ directory name, b = .files directory ∧ t.Behind directory name target

/-- Whether nothing was touched but what is right in the directory of a backing. -/
def Within (b : Backing) (t t' : FileTree) : Prop := Frame (b.Claims t') t t'

/-- Whether the directory of a backing is there. -/
def Settled (b : Backing) (t : FileTree) : Prop :=
  ∀ directory, b = .files directory → ∃ place, t.Finds directory place .directory

/-- The files of the first chunks. -/
def fileNames (b : Backing) (count : Nat) : List String :=
  match b with
  | .anonymous => []
  | .files directory => (List.range count).map (Provider.fileName directory)

variable {b : Backing} {t t' t'' : FileTree} {touched : List String → Prop}

theorem Claims.mono (h : Frame touched t t') {target : List String} (hclaims : b.Claims t target) :
    b.Claims t' target := by
  obtain ⟨directory, name, hb, htarget⟩ := hclaims
  exact ⟨directory, name, hb, h.behind htarget⟩

theorem Within.refl (t : FileTree) : b.Within t t := Frame.refl t

theorem Within.trans (h : b.Within t t') (h' : b.Within t' t'') : b.Within t t'' :=
  (Frame.mono h fun _ => Claims.mono h').trans h'

theorem Within.settled (h : b.Within t t') (hs : b.Settled t) : b.Settled t' := by
  intro directory hb
  obtain ⟨place, hfinds⟩ := hs directory hb
  exact ⟨place, Frame.finds h hfinds (Or.inl rfl)⟩

/-- What lies behind the directory may be touched. -/
theorem within_of_frame {directory name : String} (hb : b = .files directory)
    (h : Frame (t.Behind directory name) t t') : b.Within t t' :=
  h.mono fun _ htarget => ⟨directory, name, hb, h.behind htarget⟩

end Backing

namespace Provider

variable {p q : Provider} {h k : Host}

/-! ## Names -/

theorem isName_chunkName (index : Nat) : IsName (chunkName index) := by
  have hlist := toList_chunkName index
  refine ⟨?_, ?_, ?_, ?_, ?_⟩
  · rw [hlist]
    exact nofun
  · rintro heq
    rw [heq] at hlist
    cases hlist
  · rintro heq
    rw [heq] at hlist
    cases hlist
  · exact notMem_chunkName (by decide) (by decide) (by decide) index
  · exact notMem_chunkName (by decide) (by decide) (by decide) index

/-! ## Mapping a file -/

/-- What mapping a file does to the tree of files: the file at the place of the path may be made, be
given a size and be deleted again. -/
inductive FileChange (path : String) (size : UInt64) (h : Host) :
    Except Fault Mapping × Host → Prop
  | unopened (fault : Fault) : FileChange path size h (.error fault, h)
  | deleted (fault : Fault) (place : List String) (name : String) (k : Host)
      (placed : h.files.place path = .ok ⟨place, .name name, false⟩)
      (framed : Frame (· = place ++ [name]) h.files k.files) :
      FileChange path size h (.error fault, (k.deleteFile path).2)
  | mapped (block : Nat) (place : List String) (name : String) (k : Host)
      (placed : h.files.place path = .ok ⟨place, .name name, false⟩)
      (framed : Frame (· = place ++ [name]) h.files k.files)
      (found : k.files.entry? (place ++ [name]) = some (.file block size.toNat)) :
      FileChange path size h (.ok ⟨some block, size⟩, k)

theorem mapFile_fileChange (path : String) (size : UInt64) (h : Host) :
    FileChange path size h (mapFile path size h) := by
  have hopening := h.openFile_opening path
  unfold mapFile
  generalize h.openFile path = out at hopening
  cases hopening with
  | failed e => exact .unopened _
  | opened target files hopen =>
    obtain ⟨⟨place, name, hplace, rfl⟩, -⟩ := openFile_ok hopen
    have hopened : Frame (· = place ++ [name]) h.files files := (openFile_frame hopen).1
    simp only
    split
    · exact .deleted _ place name _ hplace hopened
    split
    · exact .deleted _ place name _ hplace hopened
    next block hblock _ =>
    have hsized := hopened.trans (files.frame_resize (place ++ [name]) size.toNat)
    have hfound : FileTree.entry? (files.resize (place ++ [name]) size.toNat) (place ++ [name])
        = some (.file block size.toNat) := by
      unfold blockOf? at hblock
      split at hblock
      · next hentry =>
        cases hblock
        rw [entry?_resize, hentry, Option.map_some, sized, if_pos rfl]
      · cases hblock
    generalize hk : ({ h with
      files := files.resize (place ++ [name]) size.toNat
      nextBlock := h.nextBlock + 1 } : Host) = k
    have hfiles : k.files = files.resize (place ++ [name]) size.toNat := by rw [← hk]
    rw [← hfiles] at hsized hfound
    obtain ⟨attempts, heq | heq⟩ := k.mapBlock_eq block size <;> rw [heq]
    · exact .deleted _ place name _ hplace hsized
    · exact .mapped block place name _ hplace hsized hfound

/-- The file of a path behind a directory is the only one that is touched. -/
theorem mapFile_frame {directory name : String} (hbase : IsBase directory) (hname : IsName name)
    (size : UInt64) (h : Host) :
    Frame (h.files.Behind directory name) h.files
      (mapFile (directory ++ "/" ++ name) size h).2.files := by
  have hchange := mapFile_fileChange (directory ++ "/" ++ name) size h
  generalize mapFile (directory ++ "/" ++ name) size h = out at hchange
  cases hchange with
  | unopened => exact .refl _
  | deleted fault place last k placed framed =>
    obtain ⟨_, heq, hfinds⟩ := place_behind hbase hname placed
    cases heq
    have hdeleted := deleteFile_frame (t := k.files) hbase hname
    rw [Host.files_deleteFile]
    refine (framed.mono fun target htarget => ⟨place, hfinds, htarget⟩).trans
      (hdeleted.mono fun target ⟨place', hfinds', htarget⟩ => ?_)
    rw [hfinds'.place_unique (framed.finds hfinds (Or.inl rfl))] at htarget
    exact ⟨place, hfinds, htarget⟩
  | mapped block place last k placed framed found =>
    obtain ⟨_, heq, hfinds⟩ := place_behind hbase hname placed
    cases heq
    exact framed.mono fun target htarget => ⟨place, hfinds, htarget⟩

theorem mapFile_inFile {path : String} {size : UInt64} {m : Mapping}
    (hok : mapFile path size h = (.ok m, k)) : m.InFile k.files path := by
  have hchange := mapFile_fileChange path size h
  rw [hok] at hchange
  cases hchange with
  | mapped block place name _ placed framed found =>
    exact ⟨place ++ [name], block, framed.finds_place placed found, rfl⟩

/-! ## Deleting files -/

theorem deleteStale_within {directory : String} (hbase : IsBase directory) {names : List String}
    (hnames : ∀ name ∈ names, IsName name) (h : Host) :
    (Backing.files directory).Within h.files (deleteStale directory names h).2.files := by
  refine deleteStale_keeps (I := fun k => (Backing.files directory).Within h.files k.files)
    (fun k name hname hk => ?_) (fun _ _ _ hk => hk) (.refl _)
  rw [Host.files_deleteFile]
  exact hk.trans (Backing.within_of_frame rfl (deleteFile_frame hbase (hnames name hname)))

/-- **Only files right in the directory are deleted before the first chunk is mapped**, and then
the directory is there. -/
theorem prepare_within {directory : String} (hbase : IsBase directory) (hproper : h.files.Proper) :
    (Backing.files directory).Within h.files (prepare directory h).2.files
      ∧ ((prepare directory h).1 = .ok () →
        (Backing.files directory).Settled (prepare directory h).2.files) := by
  have hensured : ∀ touched, Frame touched h.files (h.ensureDirectories directory).2.files :=
    fun _ => by
      rw [Host.files_ensureDirectories]
      exact ensureDirectories_frame h.files directory
  unfold prepare
  generalize h.ensureDirectories directory = out at hensured
  obtain ⟨_ | _, k⟩ := out
  · exact ⟨hensured _, nofun⟩
  · simp only
    cases hlisting : k.files.listing directory with
    | error fault => exact ⟨hensured _, nofun⟩
    | ok names =>
      obtain ⟨place, hresolve, hdirectory, hnames⟩ := listing_ok hlisting
      have hisName : ∀ name ∈ names, IsName name := fun name hname =>
        isName_of_children ((hensured (fun _ => False)).proper hproper) (hnames ▸ hname)
      have hdeleted := deleteStale_within hbase hisName k
      refine ⟨Backing.Within.trans (hensured _) hdeleted, fun _ => hdeleted.settled ?_⟩
      intro other hother
      cases hother
      exact ⟨place, hresolve, of_decide_eq_true hdirectory⟩

theorem deleteAll_within {directory : String} (hbase : IsBase directory) {paths : List String}
    (hpaths : ∀ path ∈ paths, ∃ index, path = fileName directory index) (h : Host) :
    (Backing.files directory).Within h.files (deleteAll paths h).2.files := by
  refine deleteAll_keeps (I := fun k => (Backing.files directory).Within h.files k.files)
    (fun k path hpath hk => ?_) (fun _ _ _ hk => hk) (.refl _)
  obtain ⟨index, rfl⟩ := hpaths path hpath
  rw [Host.files_deleteFile, fileName_eq]
  exact hk.trans (Backing.within_of_frame rfl (deleteFile_frame hbase (isName_chunkName index)))

/-! ## Files that are mapped -/

/-- The chunks of a provider have their files: one each, and each is the one that is mapped. -/
structure Held (p : Provider) (t : FileTree) : Prop where
  files : p.files = p.backing.fileNames p.mappings.length
  live : ∀ (i : Nat) path m, p.files[i]? = some path → p.mappings[i]? = some m → m.InFile t path

/-- What an operation of a provider does: it touches nothing but what is its own, and the chunks
that are mapped then have their files. -/
structure Tended (p : Provider) (t : FileTree) (q : Provider) (t' : FileTree) : Prop where
  backing : q.backing = p.backing
  within : p.backing.Within t t'
  held : q.Held t'

theorem Tended.trans {r : Provider} {t t' t'' : FileTree} (h : Tended p t q t')
    (h' : Tended q t' r t'') : Tended p t r t'' where
  backing := h'.backing.trans h.backing
  within := h.within.trans (h.backing ▸ h'.within)
  held := h'.held

theorem Held.refl {t : FileTree} (hp : p.Held t) : Tended p t p t := ⟨rfl, .refl _, hp⟩

/-- Without chunks there is no file to be missed. -/
theorem held_of_empty {t : FileTree} (hmappings : p.mappings = []) (hfiles : p.files = []) :
    p.Held t := by
  refine ⟨?_, fun i path m hpath => ?_⟩
  · rw [hmappings, hfiles]
    cases p.backing <;> rfl
  · rw [hfiles] at hpath
    cases hpath

theorem Held.files_eq_nil {t : FileTree} (hp : p.Held t) (hmappings : p.mappings = []) :
    p.files = [] := by
  rw [hp.files, hmappings]
  cases p.backing <;> rfl

theorem Held.files_anonymous {t : FileTree} (hp : p.Held t) (hb : p.backing = .anonymous) :
    p.files = [] := by
  rw [hp.files, hb]
  rfl

theorem Held.length_files {t : FileTree} (hp : p.Held t) {directory : String}
    (hb : p.backing = .files directory) : p.files.length = p.mappings.length := by
  rw [hp.files, hb]
  exact (List.length_map ..).trans List.length_range

/-- The files of a provider are there. -/
theorem Held.finds {t : FileTree} (hp : p.Held t) {path : String} (hpath : path ∈ p.files) :
    ∃ target entry, t.Finds path target entry := by
  cases hb : p.backing with
  | anonymous =>
    rw [hp.files_anonymous hb] at hpath
    cases hpath
  | files directory =>
    obtain ⟨i, hi, rfl⟩ := List.mem_iff_getElem.mp hpath
    have hi' : i < p.mappings.length := hp.length_files hb ▸ hi
    obtain ⟨target, block, hfinds, -⟩ :=
      hp.live i _ _ (List.getElem?_eq_getElem hi) (List.getElem?_eq_getElem hi')
    exact ⟨target, _, hfinds⟩

/-- The files of a provider lie right in its directory. -/
theorem Held.claims (hp : p.Held h.files) (hnamed : p.backing.Named) {path : String}
    (hpath : path ∈ p.files) {target : List String} {entry : Entry}
    (hfinds : h.files.Finds path target entry) : p.backing.Claims h.files target := by
  rw [hp.files] at hpath
  cases hb : p.backing with
  | anonymous =>
    rw [hb] at hpath
    cases hpath
  | files directory =>
    rw [hb] at hpath
    obtain ⟨index, -, rfl⟩ := List.mem_map.mp hpath
    rw [fileName_eq] at hfinds
    exact ⟨directory, chunkName index, rfl,
      hfinds.of_behind (hnamed directory hb) (isName_chunkName index)⟩

/-- **Files that were not touched are held still.** -/
theorem Held.frame {touched : List String → Prop} (hp : p.Held h.files)
    (hframe : Frame touched h.files k.files)
    (hout : ∀ path ∈ p.files, ∀ target entry, h.files.Finds path target entry → ¬ touched target) :
    p.Held k.files := by
  refine ⟨hp.files, fun i path m hpath hm => ?_⟩
  obtain ⟨target, block, hfinds, hblock⟩ := hp.live i path m hpath hm
  have hmem := List.mem_of_getElem? hpath
  exact ⟨target, block, hframe.finds hfinds (Or.inr (hout path hmem target _ hfinds)), hblock⟩

/-! ## What a provider does -/

theorem Held.announce (hp : p.Held h.files) (hnamed : p.backing.Named) (hidle : p.mappings = [])
    (hproper : h.files.Proper) (sizes : List UInt64) :
    Tended p h.files (p.announce sizes h).2.1 (p.announce sizes h).2.2.files
      ∧ ((p.announce sizes h).1 = .ok () → (p.announce sizes h).2.1.mappings = []
        ∧ p.backing.Settled (p.announce sizes h).2.2.files) := by
  have hfiles := hp.files_eq_nil hidle
  unfold Provider.announce
  cases hb : p.backing with
  | anonymous =>
    exact ⟨⟨hb.symm, .refl _, held_of_empty rfl hfiles⟩, fun _ => ⟨rfl, nofun⟩⟩
  | files directory =>
    have hprepared := prepare_within (hnamed directory hb) hproper
    rw [← hb] at hprepared
    simp only
    generalize prepare directory h = out at hprepared
    obtain ⟨fault | _, k⟩ := out
    · exact ⟨⟨rfl, hprepared.1, held_of_empty hidle hfiles⟩, nofun⟩
    · exact ⟨⟨hb.symm, hprepared.1, held_of_empty rfl rfl⟩,
        fun _ => ⟨rfl, hb ▸ hprepared.2 rfl⟩⟩

/-- The files of earlier chunks have other names than that of the next one. -/
theorem Held.earlier (hp : p.Held h.files) {directory : String} (hb : p.backing = .files directory)
    (hbase : IsBase directory)
    (hframe : Frame (h.files.Behind directory (chunkName p.mappings.length)) h.files k.files) :
    p.Held k.files := by
  refine hp.frame hframe fun path hpath target entry hfinds htarget => ?_
  rw [hp.files, hb] at hpath
  obtain ⟨index, hindex, rfl⟩ := List.mem_map.mp hpath
  rw [fileName_eq] at hfinds
  obtain ⟨place, -, heq⟩ := hfinds.of_behind hbase (isName_chunkName index)
  obtain ⟨place', -, heq'⟩ := htarget
  have hsame : chunkName index = chunkName p.mappings.length := by
    have hlast := congrArg List.getLast? (heq.symm.trans heq')
    rw [List.getLast?_concat, List.getLast?_concat] at hlast
    exact Option.some.inj hlast
  exact absurd (List.mem_range.mp hindex) (by rw [chunkName_injective hsame]; exact Nat.lt_irrefl _)

/-- A chunk that was mapped is held with those before it. -/
theorem Held.append {t : FileTree} (hp : p.Held t) {directory : String} {m : Mapping}
    (hb : p.backing = .files directory)
    (hm : m.InFile t (fileName directory p.mappings.length)) (hbacking : q.backing = p.backing)
    (hmappings : q.mappings = p.mappings ++ [m])
    (hfiles : q.files = p.files ++ [fileName directory p.mappings.length]) : q.Held t := by
  have hlength := hp.length_files hb
  refine ⟨?_, fun i path m' hpath hm' => ?_⟩
  · rw [hfiles, hp.files, hbacking, hb, hmappings, List.length_append]
    exact (List.map_append ..).symm.trans (congrArg _ List.range_succ.symm)
  · rw [hfiles] at hpath
    rw [hmappings] at hm'
    by_cases hi : i < p.mappings.length
    · rw [List.getElem?_append_left (hlength ▸ hi)] at hpath
      rw [List.getElem?_append_left hi] at hm'
      exact hp.live i path m' hpath hm'
    · have hlast : i = p.mappings.length := by
        have hlt := (List.getElem?_eq_some_iff.mp hm').1
        rw [List.length_append, List.length_singleton] at hlt
        omega
      subst hlast
      rw [← hlength, List.getElem?_concat_length] at hpath
      rw [List.getElem?_concat_length] at hm'
      cases hpath
      cases hm'
      exact hlength ▸ hm

/-- **Mapping the next chunk** makes its file, or leaves none. -/
theorem Held.next (hp : p.Held h.files) (hnamed : p.backing.Named) :
    Tended p h.files (p.next h).2.1 (p.next h).2.2.files := by
  unfold Provider.next
  cases hsize : p.chunks[p.mappings.length]? with
  | none => exact hp.refl
  | some size =>
    cases hb : p.backing with
    | anonymous =>
      have hfiles := hp.files_anonymous hb
      obtain ⟨attempts, heq | heq⟩ := h.mapAnonymous_eq size <;> simp only [heq]
      · exact ⟨rfl, .refl _, hp⟩
      · refine ⟨hb.symm, .refl _, hfiles, fun i path m hpath => ?_⟩
        rw [show p.files = [] from hfiles] at hpath
        cases hpath
    | files directory =>
      have hbase := hnamed directory hb
      have hframe := mapFile_frame hbase (isName_chunkName p.mappings.length) size h
      have hmapped : ∀ m k, mapFile (fileName directory p.mappings.length) size h = (.ok m, k) →
          m.InFile k.files (fileName directory p.mappings.length) := fun _ _ => mapFile_inFile
      rw [← fileName_eq] at hframe
      simp only
      generalize mapFile (fileName directory p.mappings.length) size h = out at hframe hmapped
      obtain ⟨fault | m, k⟩ := out
      · exact ⟨rfl, Backing.within_of_frame hb hframe, hp.earlier hb hbase hframe⟩
      · exact ⟨hb.symm, Backing.within_of_frame hb hframe,
          (hp.earlier hb hbase hframe).append hb (hmapped m k rfl) hb.symm rfl rfl⟩

theorem Held.shutdown (hp : p.Held h.files) (hnamed : p.backing.Named) :
    Tended p h.files (p.shutdown h).2.1 (p.shutdown h).2.2.files
      ∧ (p.shutdown h).2.1.mappings = [] := by
  unfold Provider.shutdown
  cases hb : p.backing with
  | anonymous => exact ⟨⟨hb.symm, .refl _, held_of_empty rfl (hp.files_anonymous hb)⟩, rfl⟩
  | files directory =>
    have hpaths : ∀ path ∈ p.files, ∃ index, path = fileName directory index := by
      intro path hpath
      rw [hp.files, hb] at hpath
      obtain ⟨index, -, rfl⟩ := List.mem_map.mp hpath
      exact ⟨index, rfl⟩
    have hdeleted := deleteAll_within (hnamed directory hb) hpaths h
    rw [← hb] at hdeleted
    exact ⟨⟨hb.symm, hdeleted, held_of_empty rfl rfl⟩, rfl⟩

end Provider
end PageRegions
