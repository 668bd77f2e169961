import Mathlib.Data.List.Nodup
import PageRegions.Proofs.Memory.Clearing

/-!
# Files and mappings in step

A provider that maps files has three records to keep: its mappings, its list of files, and what its
directory lists. Once it was announced to they agree (`InStep`): the directory lists one file for each
chunk that is mapped, of the chunk's length, and no other file with such a name. Each call keeps them
in step, and so they are after any number of calls, whatever else is done to the host meanwhile
(`run_inStep`). A chunk that cannot be mapped changes none of them, wherever the attempt ends
(`InStep.next`), and shutting down or announcing again finds all files to delete.

What others do is limited to what does not concern the provider (`LeftAlone`): the directory stays in
its place, and so do the files in it that have the names of chunks.
-/

set_option autoImplicit false

namespace PageRegions

open FileTree

namespace Provider

variable {directory : String} {p q : Provider} {h k : Host} {t t' : FileTree}

/-! ## Names of chunks -/

theorem isFileName_chunkName (index : Nat) : isFileName (chunkName index) = true := by
  have hlist := toList_chunkName index
  unfold isFileName Text.startsWith Text.endsWith
  rw [Bool.and_eq_true, List.isPrefixOf_iff_prefix, List.isSuffixOf_iff_suffix, hlist]
  exact ⟨List.prefix_append _ _, (List.suffix_append _ _).trans (List.suffix_append _ _)⟩

/-- The names of the first chunks. -/
def chunkNames (count : Nat) : List String := (List.range count).map chunkName

theorem chunkNames_succ (count : Nat) :
    chunkNames (count + 1) = chunkNames count ++ [chunkName count] := by
  unfold chunkNames
  rw [List.range_succ, List.map_append, List.map_singleton]

theorem nodup_chunkNames (count : Nat) : (chunkNames count).Nodup :=
  List.Nodup.map (fun _ _ => chunkName_injective) List.nodup_range

theorem chunkName_notMem (count : Nat) : chunkName count ∉ chunkNames count := by
  intro hmem
  obtain ⟨index, hindex, heq⟩ := List.mem_map.mp hmem
  rw [chunkName_injective heq, List.mem_range] at hindex
  exact Nat.lt_irrefl _ hindex

/-- Whether a directory lists just the given names, of all that files of chunks could have. -/
def Lists (t : FileTree) (directory : String) (names : List String) : Prop :=
  ∃ all, t.listing directory = .ok all ∧ (all.filter isFileName).Perm names

theorem lists_iff {names : List String} : Lists t directory names ↔
    ∃ place, t.Finds directory place .directory
      ∧ ((t.children place).filter isFileName).Perm names := by
  constructor
  · rintro ⟨all, hlisting, hperm⟩
    obtain ⟨place, hfinds, rfl⟩ := finds_of_listing hlisting
    exact ⟨place, hfinds, hperm⟩
  · rintro ⟨place, hfinds, hperm⟩
    exact ⟨_, hfinds.listing, hperm⟩

/-! ## Files and mappings -/

/-- The mappings of a provider, its list of files and its directory agree: there is one file for each
chunk that is mapped, and each has the length of its chunk. -/
structure InStep (directory : String) (p : Provider) (t : FileTree) : Prop where
  backing : p.backing = .files directory
  files : p.files = (List.range p.mappings.length).map (fileName directory)
  listed : Lists t directory (chunkNames p.mappings.length)
  sized : ∀ (i : Nat) m, p.mappings[i]? = some m →
    p.chunks[i]? = some m.length ∧ m.InFile t (fileName directory i)

/-- In a directory with something right in it, names can be written behind its text. -/
theorem isBase_of_finds {place target : List String} {name : String} {entry : Entry}
    (hsettled : t.Finds directory place .directory)
    (hfinds : t.Finds (directory ++ "/" ++ name) target entry) (hfile : entry ≠ .directory) :
    IsBase directory := by
  refine ⟨hsettled.leads.ne_empty, fun hnul => ?_⟩
  obtain ⟨found, hresolves, hdirectory⟩ := hsettled.leads.behind hnul name
  obtain rfl := Except.ok.inj (hresolves.symm.trans hfinds.resolves)
  exact hfile (Option.some.inj (hfinds.found.symm.trans (of_decide_eq_true hdirectory)))

/-- The directory of a provider holds the files of its chunks. -/
theorem InStep.holds (hp : InStep directory p t) {place : List String}
    (hsettled : t.Finds directory place .directory) :
    t.Holds directory place (chunkNames p.mappings.length) := by
  refine ⟨hsettled, fun name hname => ?_⟩
  obtain ⟨i, hi, rfl⟩ := List.mem_map.mp hname
  obtain ⟨-, target, block, hfinds, -⟩ :=
    hp.sized i _ (List.getElem?_eq_getElem (List.mem_range.mp hi))
  rw [fileName_eq] at hfinds
  have hbase := isBase_of_finds hsettled hfinds nofun
  obtain ⟨other, hother, rfl⟩ := hfinds.of_behind hbase (isName_chunkName i)
  obtain rfl := hother.place_unique hsettled
  exact ⟨hbase, isName_chunkName i, _, hfinds, nofun⟩

/-! ## Mapping the next chunk -/

/-- Where no file is, mapping one makes it, or changes nothing. -/
inductive Made (path : String) (size : UInt64) (h : Host) : Except Fault Mapping × Host → Prop
  | failed (fault : Fault) (k : Host) (same : k.files = h.files) : Made path size h (.error fault, k)
  | made (block : Nat) (target : List String) (k : Host) (new : h.files.entry? target = none)
      (located : h.files.At path target)
      (added : k.files = h.files.add target (.file block size.toNat)) :
      Made path size h (.ok ⟨some block, size⟩, k)

theorem mapFile_made {path : String} (size : UInt64)
    (hnew : ∀ target entry, h.files.At path target → h.files.entry? target = some entry →
      entry = .directory) : Made path size h (mapFile path size h) := by
  have hopening := h.openFile_opening path
  unfold mapFile
  generalize h.openFile path = out at hopening
  cases hopening with
  | failed e => exact .failed _ h rfl
  | opened target files hopen =>
    obtain ⟨⟨place, name, hplace, rfl⟩, ⟨hnone, rfl⟩ | ⟨⟨entry, hentry, hfile⟩, -⟩⟩ :=
      openFile_ok hopen
    swap
    · exact absurd (hnew _ entry ⟨place, name, hplace, rfl⟩ hentry) hfile
    have hat : h.files.At path (place ++ [name]) := ⟨place, name, hplace, rfl⟩
    have hat' : ∀ size, (h.files.add (place ++ [name]) (.file h.nextBlock size)).At path
        (place ++ [name]) := fun size => by
      rw [← resize_add hnone h.nextBlock 0 size]
      have hopened : Frame (fun _ => False) h.files _ := (openFile_frame hopen).1
      exact (frame_resize _ _ _).at (hopened.at hat)
    -- Whatever size the file was given, if it is deleted the files are those from before.
    have hdeleted : ∀ (k : Host) size, k.files
        = h.files.add (place ++ [name]) (.file h.nextBlock size) →
        (k.deleteFile path).2.files = h.files := fun k size hfiles => by
      rw [Host.files_deleteFile, hfiles,
        (hat' size).deleteFile (entry?_add_self hnone) nofun, remove_add hnone]
    have hblock : blockOf? (h.files.add (place ++ [name]) (.file h.nextBlock 0)) (place ++ [name])
        = some h.nextBlock := by
      unfold blockOf?
      rw [entry?_add_self hnone]
    simp only [hblock]
    split
    · exact .failed _ _ (hdeleted _ 0 rfl)
    generalize hk : ({ h with
      files := (h.files.add (place ++ [name]) (.file h.nextBlock 0)).resize (place ++ [name])
        size.toNat
      nextBlock := h.nextBlock + 1 } : Host) = k
    have hfiles : k.files = h.files.add (place ++ [name]) (.file h.nextBlock size.toNat) := by
      rw [← hk, resize_add hnone]
    obtain ⟨attempts, heq | heq⟩ := k.mapBlock_eq h.nextBlock size <;> rw [heq]
    · exact .failed _ _ (hdeleted _ size.toNat hfiles)
    · exact .made _ _ _ hnone hat hfiles

/-- There is no file yet for the chunk that is mapped next. -/
theorem InStep.unmade (hp : InStep directory p t) {target : List String} {entry : Entry}
    (hat : t.At (fileName directory p.mappings.length) target)
    (hentry : t.entry? target = some entry) : entry = .directory := by
  obtain ⟨place, hsettled, hlisted⟩ := lists_iff.mp hp.listed
  by_contra hfile
  rw [fileName_eq] at hat
  obtain rfl := hat.eq_concat (by rwa [hentry, ne_eq, Option.some.injEq]) hsettled
    (isName_chunkName _)
  have hmem : chunkName p.mappings.length ∈ (t.children place).filter isFileName := by
    refine List.mem_filter.mpr ⟨mem_children.mpr ?_, isFileName_chunkName _⟩
    rw [hentry]
    exact Option.some_ne_none entry
  exact chunkName_notMem _ (hlisted.mem_iff.mp hmem)

/-- A chunk that was mapped is in step with those before it. -/
theorem InStep.append (hp : InStep directory p t) {m : Mapping} {target : List String}
    {block size : Nat} (hat : t.At (fileName directory p.mappings.length) target)
    (hnone : t.entry? target = none) (hsize : p.chunks[p.mappings.length]? = some m.length)
    (hadded : t' = t.add target (.file block size))
    (hm : m.InFile t' (fileName directory p.mappings.length)) :
    InStep directory ⟨.files directory, p.chunks, p.mappings ++ [m],
      p.files ++ [fileName directory p.mappings.length]⟩ t' := by
  obtain ⟨place, hsettled, hlisted⟩ := lists_iff.mp hp.listed
  rw [fileName_eq] at hat
  obtain rfl := hat.eq_concat (by rw [hnone]; exact nofun) hsettled (isName_chunkName _)
  have hframe : Frame (fun _ => False) t t' :=
    hadded ▸ frame_add List.getLast?_concat (isName_chunkName _)
  have hlength : (p.mappings ++ [m]).length = p.mappings.length + 1 := List.length_append
  refine ⟨rfl, ?_, lists_iff.mpr ⟨place, hframe.finds hsettled (Or.inl rfl), ?_⟩,
    fun i m' hm' => ?_⟩
  · simp only [hlength, hp.files, List.range_succ, List.map_append, List.map_singleton]
  · rw [hadded, children_add, List.filter_append, List.filter_singleton, isFileName_chunkName,
      cond_true, hlength, chunkNames_succ]
    exact hlisted.append_right _
  · by_cases hi : i < p.mappings.length
    · rw [List.getElem?_append_left hi] at hm'
      obtain ⟨hchunk, other, block', hfinds, hblock⟩ := hp.sized i m' hm'
      exact ⟨hchunk, other, block', hframe.finds hfinds (Or.inr not_false), hblock⟩
    · have hlast : i = p.mappings.length := by
        have hlt : i < (p.mappings ++ [m]).length := (List.getElem?_eq_some_iff.mp hm').1
        omega
      subst hlast
      rw [List.getElem?_concat_length] at hm'
      cases hm'
      exact ⟨hsize, hm⟩

/-- **Mapping the next chunk** keeps the records in step. If it fails it changes none of them: the
tree of files is what it was. -/
theorem InStep.next (hp : InStep directory p h.files) :
    InStep directory (p.next h).2.1 (p.next h).2.2.files
      ∧ ∀ fault, (p.next h).1 = .error fault →
        (p.next h).2.1 = p ∧ (p.next h).2.2.files = h.files := by
  unfold Provider.next
  cases hsize : p.chunks[p.mappings.length]? with
  | none => exact ⟨hp, fun _ _ => ⟨rfl, rfl⟩⟩
  | some size =>
    have hmade := mapFile_made size fun _ _ => hp.unmade
    have hmapped : ∀ m k, mapFile (fileName directory p.mappings.length) size h = (.ok m, k) →
        m.InFile k.files (fileName directory p.mappings.length) := fun _ _ => mapFile_inFile
    simp only [hp.backing]
    generalize mapFile (fileName directory p.mappings.length) size h = out at hmade hmapped
    cases hmade with
    | failed fault k same => exact ⟨same ▸ hp, fun _ _ => ⟨rfl, same⟩⟩
    | made block target k new located added =>
      exact ⟨hp.append located new hsize added (hmapped _ k rfl), nofun⟩

/-! ## Announcing and shutting down -/

/-- A directory lists no file with the name of one of a chunk once all such files were deleted. -/
theorem lists_cleared {place names : List String}
    (hsettled : (t.cleared place names).Finds directory place .directory)
    (hall : ∀ name ∈ t.children place, isFileName name = true → name ∈ names) :
    Lists (t.cleared place names) directory [] := by
  refine lists_iff.mpr ⟨place, hsettled, ?_⟩
  have hnone : (((t.cleared place names).children place).filter isFileName) = [] := by
    rw [children_cleared, List.filter_eq_nil_iff]
    intro name hname hfile
    obtain ⟨hmem, hout⟩ := List.mem_filter.mp hname
    exact of_decide_eq_true hout (hall name hmem hfile)
  rw [hnone]

/-- **A directory that was prepared** lists no file with the name of one of a chunk. -/
theorem prepare_lists (hproper : h.files.Proper) (hok : prepare directory h = (.ok (), k)) :
    Lists k.files directory [] := by
  unfold prepare at hok
  split at hok
  · cases hok
  next h₁ hensured =>
  have hproper₁ : h₁.files.Proper := by
    have hfiles := h.files_ensureDirectories directory
    rw [hensured] at hfiles
    rw [hfiles]
    have hframe : Frame (fun _ => False) h.files (h.files.ensureDirectories directory).2 :=
      ensureDirectories_frame h.files directory
    exact hframe.proper hproper
  split at hok
  · cases hok
  next names hlisting =>
  obtain ⟨place, hsettled, rfl⟩ := finds_of_listing hlisting
  obtain ⟨hcleared, hsettled'⟩ :=
    deleteStale_ok hsettled (fun name hname => isName_of_children hproper₁ hname) hok
  rw [hcleared] at hsettled' ⊢
  exact lists_cleared hsettled' fun name hname hfile => List.mem_filter.mpr ⟨hname, hfile⟩

/-- **Files and mappings are in step once chunks were announced**, whatever there was before. -/
theorem announce_inStep (hbacking : p.backing = .files directory) (hproper : h.files.Proper)
    {sizes : List UInt64} (hok : (p.announce sizes h).1 = .ok ()) :
    InStep directory (p.announce sizes h).2.1 (p.announce sizes h).2.2.files := by
  unfold announce at hok ⊢
  simp only [hbacking] at hok ⊢
  rcases hprepared : prepare directory h with ⟨fault | _, k⟩
  · rw [hprepared] at hok
    cases hok
  · exact ⟨rfl, rfl, prepare_lists hproper hprepared, nofun⟩

/-- Announcing chunks again succeeds: all files of the directory can be deleted. -/
theorem InStep.announce_ok (hp : InStep directory p h.files) (sizes : List UInt64) :
    (p.announce sizes h).1 = .ok () := by
  obtain ⟨place, hsettled, hlisted⟩ := lists_iff.mp hp.listed
  have hholds := hp.holds hsettled
  have hdeleted : (deleteStale directory (h.files.children place) h).1 = .ok () :=
    deleteStale_of_holds ⟨hsettled, fun name hname => hholds.files name (hlisted.mem_iff.mp hname)⟩
      (hlisted.nodup_iff.mpr (nodup_chunkNames _))
  have hensured : h.ensureDirectories directory = (.ok (), h) := by
    unfold Host.ensureDirectories
    rw [hsettled.ensureDirectories hsettled.leads.ne_empty]
  unfold announce prepare
  simp only [hp.backing, hensured, hsettled.listing]
  generalize deleteStale directory (h.files.children place) h = out at hdeleted
  obtain ⟨_ | _, k⟩ := out
  · cases hdeleted
  · rfl

/-- **Shutting down** succeeds and leaves no file of a chunk. -/
theorem InStep.shutdown (hp : InStep directory p h.files) :
    (p.shutdown h).1 = .ok () ∧ (p.shutdown h).2.1.mappings = []
      ∧ InStep directory (p.shutdown h).2.1 (p.shutdown h).2.2.files := by
  obtain ⟨place, hsettled, hlisted⟩ := lists_iff.mp hp.listed
  have hholds := hp.holds hsettled
  have hfiles : p.files
      = (chunkNames p.mappings.length).map fun name => directory ++ "/" ++ name := by
    rw [hp.files, chunkNames, List.map_map]
    exact List.map_congr_left fun i _ => fileName_eq directory i
  obtain ⟨hok, hcleared⟩ := deleteAll_of_holds hholds (nodup_chunkNames _)
  have hlists := lists_cleared (hholds.cleared (nodup_chunkNames _)) fun name hname hfile =>
    hlisted.mem_iff.mp (List.mem_filter.mpr ⟨hname, hfile⟩)
  unfold Provider.shutdown
  simp only [hp.backing, hfiles]
  exact ⟨hok, True.intro, rfl, rfl, hcleared ▸ hlists, nofun⟩

/-! ## Names that directories hold -/

/-- No call of a provider makes a name that a directory could not hold, nor removes a directory. -/
theorem prepare_frame (directory : String) (h : Host) :
    Frame (fun _ => True) h.files (prepare directory h).2.files := by
  refine prepare_keeps (I := fun k => Frame (fun _ => True) h.files k.files) (fun k hk => ?_)
    (fun k path hk => ?_) (fun _ _ _ hk => hk) (.refl _)
  · rw [Host.files_ensureDirectories]
    exact hk.trans (ensureDirectories_frame k.files directory)
  · rw [Host.files_deleteFile]
    exact hk.trans (k.files.deleteFile_frame_true path)

theorem announce_frame (p : Provider) (sizes : List UInt64) (h : Host) :
    Frame (fun _ => True) h.files (p.announce sizes h).2.2.files := by
  unfold announce
  cases p.backing with
  | anonymous => exact .refl _
  | files directory =>
    have hprepared := prepare_frame directory h
    simp only
    generalize prepare directory h = out at hprepared
    obtain ⟨_ | _, k⟩ := out <;> exact hprepared

theorem mapFile_frame_true (path : String) (size : UInt64) (h : Host) :
    Frame (fun _ => True) h.files (mapFile path size h).2.files := by
  have hchange := mapFile_fileChange path size h
  generalize mapFile path size h = out at hchange
  cases hchange with
  | unopened => exact .refl _
  | deleted fault place name k placed framed =>
    rw [Host.files_deleteFile]
    exact (framed.mono fun _ _ => True.intro).trans (k.files.deleteFile_frame_true path)
  | mapped block place name k placed framed => exact framed.mono fun _ _ => True.intro

theorem next_frame (p : Provider) (h : Host) :
    Frame (fun _ => True) h.files (p.next h).2.2.files := by
  unfold Provider.next
  cases p.chunks[p.mappings.length]? with
  | none => exact .refl _
  | some size =>
    cases p.backing with
    | anonymous =>
      obtain ⟨attempts, heq | heq⟩ := h.mapAnonymous_eq size <;> simp only [heq] <;> exact .refl _
    | files directory =>
      have hmapped := mapFile_frame_true (fileName directory p.mappings.length) size h
      simp only
      generalize mapFile (fileName directory p.mappings.length) size h = out at hmapped
      obtain ⟨_ | _, k⟩ := out <;> exact hmapped

theorem deleteAll_frame (paths : List String) (h : Host) :
    Frame (fun _ => True) h.files (deleteAll paths h).2.files := by
  refine deleteAll_keeps (I := fun k => Frame (fun _ => True) h.files k.files)
    (fun k path _ hk => ?_) (fun _ _ _ hk => hk) (.refl _)
  rw [Host.files_deleteFile]
  exact hk.trans (k.files.deleteFile_frame_true path)

theorem shutdown_frame (p : Provider) (h : Host) :
    Frame (fun _ => True) h.files (p.shutdown h).2.2.files := by
  unfold Provider.shutdown
  cases p.backing with
  | anonymous => exact .refl _
  | files directory => exact deleteAll_frame p.files h

/-! ## Runs -/

/-- What may be asked of a provider. -/
inductive Call where
  | announce (sizes : List UInt64)
  | next
  | shutdown

/-- The provider and the host after a call, whether it succeeded or not. -/
def Call.run : Call → Provider → Host → Provider × Host
  | .announce sizes, p, h => (p.announce sizes h).2
  | .next, p, h => (p.next h).2
  | .shutdown, p, h => (p.shutdown h).2

/-- What others may do to the files: a directory that is there stays where it is, and so do the files
in it that have the names of chunks, and there are no others of such names. -/
structure LeftAlone (directory : String) (t t' : FileTree) : Prop where
  settled : ∀ place, t.Finds directory place .directory → t'.Finds directory place .directory
  listed : ∀ place, t.Finds directory place .directory →
    ((t'.children place).filter isFileName).Perm ((t.children place).filter isFileName)
  found : ∀ place name, t.Finds directory place .directory → isFileName name = true →
    t'.entry? (place ++ [name]) = t.entry? (place ++ [name])
  proper : t.Proper → t'.Proper

/-- A provider and its host after any calls, between which others may do what leaves its files
alone. -/
inductive Run (directory : String) (s : Provider × Host) : Provider × Host → Prop
  | refl : Run directory s s
  | call {p : Provider} {h : Host} (hrun : Run directory s (p, h)) (c : Call) :
      Run directory s (c.run p h)
  | aside {p : Provider} {h k : Host} (hrun : Run directory s (p, h))
      (halone : LeftAlone directory h.files k.files) : Run directory s (p, k)

/-- A provider that chunks were not announced to. -/
structure Unannounced (directory : String) (p : Provider) : Prop where
  backing : p.backing = .files directory
  chunks : p.chunks = []
  mappings : p.mappings = []
  files : p.files = []

theorem Call.run_frame (c : Call) (p : Provider) (h : Host) :
    Frame (fun _ => True) h.files (c.run p h).2.files := by
  cases c with
  | announce sizes => exact p.announce_frame sizes h
  | next => exact p.next_frame h
  | shutdown => exact p.shutdown_frame h

/-- **A call** keeps files and mappings in step. -/
theorem InStep.call (hp : InStep directory p h.files) (hproper : h.files.Proper) (c : Call) :
    InStep directory (c.run p h).1 (c.run p h).2.files := by
  cases c with
  | announce sizes => exact announce_inStep hp.backing hproper (hp.announce_ok sizes)
  | next => exact hp.next.1
  | shutdown => exact hp.shutdown.2.2

/-- **Others** leave them in step. -/
theorem InStep.aside (hp : InStep directory p t) (halone : LeftAlone directory t t') :
    InStep directory p t' := by
  obtain ⟨place, hsettled, hlisted⟩ := lists_iff.mp hp.listed
  have hsettled' := halone.settled place hsettled
  refine ⟨hp.backing, hp.files,
    lists_iff.mpr ⟨place, hsettled', (halone.listed place hsettled).trans hlisted⟩,
    fun i m hm => ?_⟩
  obtain ⟨hchunk, target, block, hfinds, hblock⟩ := hp.sized i m hm
  rw [fileName_eq] at hfinds ⊢
  have hbase := isBase_of_finds hsettled hfinds nofun
  have hname := isName_chunkName i
  obtain rfl := (hfinds.at hbase hname).eq_concat (by rw [hfinds.found]; exact nofun) hsettled hname
  have hfound := halone.found place _ hsettled (isFileName_chunkName i)
  exact ⟨hchunk, _, block, hfinds.again hbase hname hsettled' (hfound.trans hfinds.found), hblock⟩

theorem InStep.run (hp : InStep directory p h.files) (hproper : h.files.Proper)
    (hrun : Run directory (p, h) (q, k)) : InStep directory q k.files := by
  suffices hboth : ∀ s, Run directory (p, h) s → s.2.files.Proper ∧ InStep directory s.1 s.2.files from
    (hboth _ hrun).2
  intro s hrun
  induction hrun with
  | refl => exact ⟨hproper, hp⟩
  | call hrun c ih => exact ⟨(c.run_frame _ _).proper ih.1, ih.2.call ih.1 c⟩
  | aside hrun halone ih => exact ⟨halone.proper ih.1, ih.2.aside halone⟩

/-- Before chunks were announced there is nothing that could be out of step. -/
theorem Unannounced.call (hp : Unannounced directory p) (hproper : h.files.Proper) (c : Call) :
    Unannounced directory (c.run p h).1 ∨ InStep directory (c.run p h).1 (c.run p h).2.files := by
  cases c with
  | announce sizes =>
    rcases hout : (p.announce sizes h).1 with fault | _
    · refine Or.inl ?_
      unfold announce at hout
      unfold Call.run announce
      simp only [hp.backing] at hout ⊢
      rcases hprepared : prepare directory h with ⟨fault | _, k⟩
      · exact hp
      · rw [hprepared] at hout
        cases hout
    · exact Or.inr (announce_inStep hp.backing hproper hout)
  | next =>
    refine Or.inl ?_
    unfold Call.run Provider.next
    simp only [hp.chunks, List.getElem?_nil]
    exact hp
  | shutdown =>
    refine Or.inl ?_
    unfold Call.run Provider.shutdown
    simp only [hp.backing]
    exact ⟨rfl, hp.chunks, rfl, rfl⟩

/-- What is known of a provider that began as a fresh one. -/
theorem Run.kept {h₀ : Host} (hproper : h₀.files.Proper)
    (hrun : Run directory (fresh (.files directory), h₀) (p, h)) :
    h.files.Proper ∧ (Unannounced directory p ∨ InStep directory p h.files) := by
  suffices hall : ∀ s, Run directory (fresh (.files directory), h₀) s →
      s.2.files.Proper ∧ (Unannounced directory s.1 ∨ InStep directory s.1 s.2.files) from
    hall _ hrun
  intro s hrun
  induction hrun with
  | refl => exact ⟨hproper, Or.inl ⟨rfl, rfl, rfl, rfl⟩⟩
  | call hrun c ih =>
    refine ⟨(c.run_frame _ _).proper ih.1, ?_⟩
    rcases ih.2 with hidle | hstep
    · exact hidle.call ih.1 c
    · exact Or.inr (hstep.call ih.1 c)
  | aside hrun halone ih =>
    exact ⟨halone.proper ih.1, ih.2.imp_right fun hstep => hstep.aside halone⟩

/-- **Files and mappings in step.** Of a provider that maps files, after any calls: a chunk that cannot
be mapped changes neither the provider nor the files, and shutting down succeeds. From each
announcement that succeeds, after any further calls, the directory lists just the files of the chunks
that are mapped, each is there with the length of its chunk, and shutting down leaves none. -/
theorem run_inStep {h₀ : Host} (hproper : h₀.files.Proper)
    (hrun : Run directory (fresh (.files directory), h₀) (p, h)) :
    (∀ fault, (p.next h).1 = .error fault →
        (p.next h).2.1 = p ∧ (p.next h).2.2.files = h.files)
      ∧ (p.shutdown h).1 = .ok ()
      ∧ ∀ sizes, (p.announce sizes h).1 = .ok () →
        ∀ q k, Run directory (p.announce sizes h).2 (q, k) →
          InStep directory q k.files ∧ Lists (q.shutdown k).2.2.files directory [] := by
  obtain ⟨hproper', hkept⟩ := hrun.kept hproper
  have hbacking : p.backing = .files directory := hkept.elim (·.backing) (·.backing)
  refine ⟨?_, ?_, fun sizes hok q k hlater => ?_⟩
  · rcases hkept with hidle | hstep
    · unfold Provider.next
      rw [hidle.chunks]
      exact fun _ _ => ⟨rfl, rfl⟩
    · exact hstep.next.2
  · rcases hkept with hidle | hstep
    · unfold Provider.shutdown
      simp only [hidle.backing, hidle.files]
      rfl
    · exact hstep.shutdown.1
  · have hstep := (announce_inStep hbacking hproper' hok).run
      ((p.announce_frame sizes h).proper hproper') hlater
    obtain ⟨-, hmappings, hdown⟩ := hstep.shutdown
    refine ⟨hstep, ?_⟩
    have hlisted := hdown.listed
    rw [hmappings] at hlisted
    exact hlisted

/-- A chunk that is mapped, and one that has no length and is not. -/
theorem run_inStep_two_chunks :
    ∃ q k, Run "swap" ((fresh (.files "swap")).announce [8192, 0] (.fresh .scratch fun _ => 0)).2 (q, k)
      ∧ q.mappings.map (·.length) = [8192]
      ∧ InStep "swap" q k.files ∧ Lists (q.shutdown k).2.2.files "swap" [] := by
  have hproper : (Host.fresh .scratch fun _ => 0).files.Proper := scratch_proper
  have hok : ((fresh (.files "swap")).announce [8192, 0] (.fresh .scratch fun _ => 0)).1 = .ok () := by
    decide +kernel
  have hrun : Run "swap" ((fresh (.files "swap")).announce [8192, 0] (.fresh .scratch fun _ => 0)).2 _ :=
    (Run.refl.call .next).call .next
  obtain ⟨hstep, hlisted⟩ := (run_inStep hproper .refl).2.2 [8192, 0] hok _ _ hrun
  exact ⟨_, _, hrun, by decide +kernel, hstep, hlisted⟩

end Provider
end PageRegions
