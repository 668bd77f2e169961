import PageRegions.Memory.Provider
import PageRegions.Proofs.Host.Files
import PageRegions.Proofs.Host.Paths

/-!
# Mapping the chunks of a provider

What asking a provider for its next chunk can end in, whatever it maps (`Next`). A chunk has the
size that was announced for it, a chunk that could not be mapped is told from there being no more
chunks, and the bytes of memory are not changed by either.

No two chunks share memory (`Backs`). A chunk of fresh memory has a new block. A chunk of a file has
the block of that file, and the files of chunks have different names (`chunkName_injective`); so
even a file that was there already, which another program may have put there, is no file of another
chunk. That takes a directory whose text has no NUL byte (`Plain`). Behind one the names would all be
the same, but then the path is that of the directory, and that is not mapped.
-/

set_option autoImplicit false

namespace PageRegions

/-- Whether a fault says that memory could not be mapped. -/
def Fault.isMapping : Fault → Bool
  | .anonymousMappingFailed .. | .swapFileNotOpened .. | .swapFileNotSized ..
  | .swapFileNotMapped .. => true
  | _ => false

namespace Provider

/-! ## The names of files -/

/-- The last name of the file of a chunk. -/
def chunkName (index : Nat) : String := "allocator-" ++ toString index ++ ".bin"

theorem fileName_eq (directory : String) (index : Nat) :
    fileName directory index = directory ++ "/" ++ chunkName index := by
  apply String.toList_injective
  simp [fileName, chunkName]

theorem toList_chunkName (index : Nat) :
    (chunkName index).toList = "allocator-".toList ++ (Nat.toDigits 10 index ++ ".bin".toList) := by
  unfold chunkName
  rw [String.toList_append, String.toList_append, List.append_assoc, Nat.toString_eq_repr,
    Nat.toList_repr]

theorem chunkName_injective {i j : Nat} (h : chunkName i = chunkName j) : i = j := by
  have hlist := congrArg String.toList h
  rw [toList_chunkName, toList_chunkName, List.append_cancel_left_eq,
    List.append_cancel_right_eq] at hlist
  rw [← Nat.ofDigitChars_ten_toDigits (n := i), hlist, Nat.ofDigitChars_ten_toDigits]

theorem notMem_chunkName {c : Char} (hc : c.isDigit = false) (hfront : c ∉ "allocator-".toList)
    (hback : c ∉ ".bin".toList) (index : Nat) : c ∉ (chunkName index).toList := by
  rw [toList_chunkName, List.mem_append, List.mem_append, not_or, not_or]
  refine ⟨hfront, fun hmem => ?_, hback⟩
  rw [Nat.isDigit_of_mem_toDigits (by decide) (by decide) hmem] at hc
  cases hc

/-- Whether the host sees the names of a provider's files. -/
def Plain (p : Provider) : Prop :=
  ∀ directory, p.backing = .files directory → '\x00' ∉ directory.toList

theorem getLast?_fileName {directory : String} (hplain : '\x00' ∉ directory.toList) (index : Nat) :
    (FileTree.Written.ofText (fileName directory index)).names.getLast?
      = some (chunkName index) := by
  rw [fileName_eq, FileTree.Written.names_behind hplain ?_ ?_ ?_, List.getLast?_concat]
  · exact notMem_chunkName (by decide) (by decide) (by decide) index
  · exact notMem_chunkName (by decide) (by decide) (by decide) index
  · rw [toList_chunkName]
    simp

/-! ## Mapping a file -/

variable {p : Provider} {h k : Host}

theorem shows_of_blockOf? {t : FileTree} {path : List String} {block : Nat}
    (h : blockOf? t path = some block) : t.Shows path block := by
  unfold blockOf? at h
  split at h
  · next hentry =>
    cases h
    exact FileTree.shows_of_entry? hentry
  · cases h

/-- What mapping a file can end in: a mapping of its whole length, with the file still there under
the last name of the path, or a fault that says so. A directory is not mapped. -/
inductive FileMapping (path : String) (size : UInt64) (h : Host) :
    Except Fault Mapping × Host → Prop
  | mapped (block : Nat) (target : List String) (k : Host) (blocks : k.blocks = h.blocks)
      (later : h.Later k) (shows : k.files.Shows target block)
      (name : target.getLast? = (FileTree.Written.ofText path).names.getLast?)
      (file : ¬ h.files.Leads path) :
      FileMapping path size h (.ok ⟨some block, size⟩, k)
  | failed (fault : Fault) (k : Host) (mapping : fault.isMapping = true)
      (blocks : k.blocks = h.blocks) (later : h.Later k) :
      FileMapping path size h (.error fault, k)

/-- If mapping fails in the end, the file is deleted. -/
theorem FileMapping.deleted {path : String} {size : UInt64} {fault : Fault}
    (hfault : fault.isMapping = true) (hblocks : k.blocks = h.blocks) (hlater : h.Later k) :
    FileMapping path size h (.error fault, (k.deleteFile path).2) := by
  have hdeleted := k.later_deleteFile path
  obtain ⟨files, -, heq⟩ := k.deleteFile_eq path
  rw [heq] at hdeleted ⊢
  exact .failed fault _ hfault hblocks (hlater.trans hdeleted)

theorem mapFile_mapping (path : String) (size : UInt64) (h : Host) :
    FileMapping path size h (mapFile path size h) := by
  have hopening := h.openFile_opening path
  unfold mapFile
  generalize h.openFile path = out at hopening
  cases hopening with
  | failed e => exact .failed _ h rfl rfl (.refl h)
  | opened target files hopen =>
    have hlater := Host.later_openFile hopen
    have hname := FileTree.getLast?_openFile hopen
    have hfile : ¬ h.files.Leads path := fun hleads => by
      obtain ⟨e, herror⟩ := hleads.openFile h.nextBlock
      rw [herror] at hopen
      cases hopen
    simp only
    split
    · exact .deleted rfl rfl hlater
    split
    · exact .deleted rfl rfl hlater
    next block hblock _ =>
    have hshows := shows_of_blockOf? hblock
    generalize hk : ({ h with
      files := files.resize target size.toNat
      nextBlock := h.nextBlock + 1 } : Host) = k
    have hblocks : k.blocks = h.blocks := by rw [← hk]
    have hresized : h.Later k := by
      rw [← hk]
      exact hlater.trans (Host.later_resize _ target size.toNat)
    obtain ⟨attempts, heq | heq⟩ := k.mapBlock_eq block size <;> rw [heq]
    · exact .deleted rfl hblocks (hresized.trans (.congr rfl rfl))
    · refine .mapped block target _ hblocks (hresized.trans (.congr rfl rfl)) ?_ hname hfile
      rw [← hk]
      exact FileTree.shows_resize.mpr hshows

/-! ## Mapping a chunk -/

/-- Where the block of a chunk comes from that was just mapped: it is new, or a file shows it; and
whatever file shows it has the name of the chunk's file. -/
structure Backs (h k : Host) (index block : Nat) : Prop where
  below : block < k.nextBlock
  named : ∀ path, k.files.Shows path block → path.getLast? = some (chunkName index)
  origin : h.nextBlock ≤ block ∨ ∃ path, k.files.Shows path block

/-- What mapping the next chunk can end in. -/
inductive Next (p : Provider) (h : Host) : Except Fault Mapping × Provider × Host → Prop
  /-- All chunks are mapped. -/
  | exhausted (none : p.chunks[p.mappings.length]? = none) :
      Next p h (.error .chunksExhausted, p, h)
  | mapped (block : Nat) (length : UInt64) (q : Provider) (k : Host)
      (size : p.chunks[p.mappings.length]? = some length)
      (backing : q.backing = p.backing) (chunks : q.chunks = p.chunks)
      (mappings : q.mappings = p.mappings ++ [⟨some block, length⟩])
      (blocks : k.blocks = h.blocks) (later : h.Later k)
      (backs : h.Sound → p.Plain → Backs h k p.mappings.length block)
      (seen : ∀ directory, p.backing = .files directory → h.files.Leads directory →
        '\x00' ∉ directory.toList) :
      Next p h (.ok ⟨some block, length⟩, q, k)
  | failed (fault : Fault) (k : Host) (mapping : fault.isMapping = true)
      (blocks : k.blocks = h.blocks) (later : h.Later k) :
      Next p h (.error fault, p, k)

theorem next_next (p : Provider) (h : Host) : Next p h (p.next h) := by
  unfold next
  cases hsize : p.chunks[p.mappings.length]? with
  | none => exact .exhausted hsize
  | some size =>
    cases hbacking : p.backing with
    | anonymous =>
      obtain ⟨attempts, heq | heq⟩ := h.mapAnonymous_eq size <;> simp only [heq]
      · exact .failed (.anonymousMappingFailed size) _ rfl rfl (.congr rfl rfl)
      · refine .mapped h.nextBlock size _ _ hsize hbacking.symm rfl rfl rfl
          (.of_noNew (Nat.le_succ _) (.refl _)) (fun hsound _ => ?_)
          (by rw [hbacking]; exact nofun)
        -- No file shows a block that was not given away.
        exact {
          below := Nat.lt_succ_self _
          named := fun path hshows => absurd (hsound.below path _ hshows) (Nat.lt_irrefl _)
          origin := Or.inl (Nat.le_refl _) }
    | files directory =>
      have hfile := mapFile_mapping (fileName directory p.mappings.length) size h
      simp only
      generalize mapFile (fileName directory p.mappings.length) size h = out at hfile
      cases hfile with
      | failed fault k hfault hblocks hlater => exact .failed fault k hfault hblocks hlater
      | mapped block target k hblocks hlater hshows hname hfile =>
        refine .mapped block size _ k hsize hbacking.symm rfl rfl hblocks hlater
          (fun hsound hplain => ?_) fun other hother hleads hnul => hfile ?_
        · rw [getLast?_fileName (hplain directory hbacking)] at hname
          have hsound' := hlater.sound hsound
          exact {
            below := hsound'.below target block hshows
            named := fun path hpath => by rw [hsound'.unique path target block hpath hshows, hname]
            origin := Or.inr ⟨target, hshows⟩ }
        · rw [hbacking] at hother
          cases hother
          rw [fileName_eq]
          exact hleads.behind hnul _

end Provider
end PageRegions
