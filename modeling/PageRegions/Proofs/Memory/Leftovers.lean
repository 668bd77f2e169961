import PageRegions.Memory.PageMemory
import PageRegions.Proofs.Host.Traces
import PageRegions.Proofs.Memory.Announcing

/-!
# Which files page memory would leave behind

A provider keeps a list of the files of its chunks, and it is by this list that files are deleted.
So nothing is left behind as long as the list traces all that was made: mapping a chunk makes a file
and adds it, a chunk that cannot be mapped has its file deleted at once, and shutting down works the
list off. Others may meanwhile make and delete files in the same directory. Their paths are the
`others` of each statement here.

That an idle provider has no list (`PageMemory.Orderly`) is what makes it safe to announce chunks,
which forgets the list, and to drop what was never started.
-/

set_option autoImplicit false

namespace PageRegions

open FileTree

namespace Provider

variable {before : FileTree} {others : List String} {p : Provider} {h : Host}

/-! ## Mapping a file -/

/-- What is traced after a file was mapped, or was not. -/
inductive Charted (before : FileTree) (others : List String) (path : String) :
    Except Fault Mapping × Host → Prop
  | mapped (m : Mapping) (k : Host) (traced : Traced before (path :: others) k.files) :
      Charted before others path (.ok m, k)
  | failed (fault : Fault) (k : Host) (traced : Traced before others k.files) :
      Charted before others path (.error fault, k)

/-- **A file that is mapped is traced by its path, and if it is not mapped it is gone.** -/
theorem mapFile_charted (ht : Traced before others h.files) (path : String) (size : UInt64) :
    Charted before others path (mapFile path size h) := by
  have hopening := h.openFile_opening path
  unfold mapFile
  generalize h.openFile path = out at hopening
  cases hopening with
  | failed e => exact .failed _ h ht
  | opened target files hopen =>
    obtain ⟨hat, hopened⟩ := ht.openFile hopen
    have hdeleted : ∀ k : Host, Traced before (path :: others) k.files →
        Traced before others (k.deleteFile path).2.files := fun k hk => by
      rw [Host.files_deleteFile]
      exact hk.struckOff
    simp only
    split
    · exact .failed _ _ (hdeleted _ hopened)
    split
    · exact .failed _ _ (hdeleted _ hopened)
    next block hblock _ =>
    have hsized := hopened.resize List.mem_cons_self hat size.toNat
    generalize hk : ({ h with
      files := files.resize target size.toNat
      nextBlock := h.nextBlock + 1 } : Host) = k
    have hfiles : k.files = files.resize target size.toNat := by rw [← hk]
    rw [← hfiles] at hsized
    obtain ⟨attempts, heq | heq⟩ := k.mapBlock_eq block size <;> rw [heq]
    · exact .failed _ _ (hdeleted _ hsized)
    · exact .mapped _ _ hsized

/-! ## Deleting files -/

theorem prepare_traced (directory : String) (ht : Traced before others h.files) :
    Traced before others (prepare directory h).2.files := by
  refine prepare_keeps (I := fun k => Traced before others k.files) (fun k hk => ?_)
    (fun k path hk => ?_) (fun _ _ _ hk => hk) ht
  · rw [Host.files_ensureDirectories]
    exact hk.ensureDirectories directory
  · rw [Host.files_deleteFile]
    exact hk.deleteFile path

/-- **All paths of a list are struck off**, also those behind one that cannot be deleted. -/
theorem deleteAll_traced (paths : List String) (ht : Traced before (paths ++ others) h.files) :
    Traced before others (deleteAll paths h).2.files := by
  induction paths generalizing h with
  | nil => exact ht
  | cons path paths ih =>
    have hdeleted := ht.struckOff
    rw [← Host.files_deleteFile] at hdeleted
    unfold deleteAll
    generalize h.deleteFile path = out at hdeleted
    obtain ⟨fault | _, k⟩ := out
    · exact ih (h := k.note _ _) hdeleted
    · exact ih hdeleted

/-! ## What a provider does -/

theorem announce_traced (sizes : List UInt64) (hidle : p.files = [])
    (ht : Traced before others h.files) :
    (p.announce sizes h).2.1.backing = p.backing ∧ (p.announce sizes h).2.1.files = []
      ∧ Traced before others (p.announce sizes h).2.2.files := by
  unfold announce
  split
  · exact ⟨rfl, hidle, ht⟩
  · next directory _ =>
    have hprepared := prepare_traced directory ht
    generalize prepare directory h = out at hprepared
    obtain ⟨_ | _, k⟩ := out
    · exact ⟨rfl, hidle, hprepared⟩
    · exact ⟨rfl, rfl, hprepared⟩

/-- A provider of fresh memory has no files. -/
def Fileless (p : Provider) : Prop := p.backing = .anonymous → p.files = []

theorem next_traced (hp : p.Fileless) (ht : Traced before (p.files ++ others) h.files) :
    (p.next h).2.1.Fileless
      ∧ Traced before ((p.next h).2.1.files ++ others) (p.next h).2.2.files := by
  unfold next
  split
  · exact ⟨hp, ht⟩
  next size _ =>
  split
  · obtain ⟨attempts, heq | heq⟩ := h.mapAnonymous_eq size <;> simp only [heq]
    · exact ⟨hp, ht⟩
    · exact ⟨hp, ht⟩
  · next directory hb =>
    have hcharted := mapFile_charted ht (fileName directory p.mappings.length) size
    simp only
    generalize mapFile (fileName directory p.mappings.length) size h = out at hcharted
    cases hcharted with
    | failed fault k traced => exact ⟨hp, traced⟩
    | mapped m k traced =>
      refine ⟨fun hnone => ?_, traced.mono fun path hpath => ?_⟩
      · exact absurd (hb.symm.trans hnone) nofun
      · simp only [List.mem_cons, List.mem_append] at hpath ⊢
        tauto

/-- **Nothing of a provider is left when it is shut down.** -/
theorem shutdown_traced (hp : p.Fileless) (ht : Traced before (p.files ++ others) h.files) :
    (p.shutdown h).2.1.files = [] ∧ Traced before others (p.shutdown h).2.2.files := by
  unfold shutdown
  cases hb : p.backing with
  | anonymous =>
    rw [hp hb] at ht
    exact ⟨hp hb, ht⟩
  | files directory => exact ⟨rfl, deleteAll_traced p.files ht⟩

theorem drop_traced (hp : p.Fileless) (ht : Traced before (p.files ++ others) h.files) :
    Traced before others (p.drop h).files := by
  unfold drop
  split
  · next hnone =>
    rw [hnone] at ht
    exact ht
  · exact (shutdown_traced hp ht).2

end Provider

namespace PageMemory

variable {before : FileTree} {others : List String} {m : PageMemory} {h : Host}

/-- Page memory that has files only while it is started, and of fresh memory none. -/
structure Orderly (m : PageMemory) : Prop where
  fileless : m.provider.Fileless
  idle : m.started = false → m.provider.files = []

theorem orderly_of_noFiles (hnone : m.provider.files = []) : m.Orderly :=
  ⟨fun _ => hnone, fun _ => hnone⟩

theorem mapNext_traced (hm : m.provider.Fileless)
    (ht : Traced before (m.provider.files ++ others) h.files) :
    (m.mapNext h).2.1.provider.Fileless
      ∧ Traced before ((m.mapNext h).2.1.provider.files ++ others) (m.mapNext h).2.2.files := by
  have hnext := Provider.next_traced hm ht
  unfold mapNext
  generalize m.provider.next h = out at hnext
  obtain ⟨_ | _, q, k⟩ := out <;> exact hnext

/-- Page memory is started just if starting it succeeds. -/
theorem start_started (m : PageMemory) (h : Host) :
    (m.start h).2.1.started = (m.start h).1.isOk := by
  unfold PageMemory.start
  split
  · next hstarted => exact hstarted
  · next hstopped =>
    rw [Bool.not_eq_true] at hstopped
    rcases m.provider.announce (Segments.sizes m.initialSize m.maxSize) h with ⟨_ | _, q, k⟩
    · exact hstopped
    · have hmapped : (({ m with provider := q } : PageMemory).mapNext k).2.1.started = false := by
        unfold mapNext
        simp only
        rcases q.next k with ⟨_ | _, q', k'⟩ <;> exact hstopped
      simp only
      generalize ({ m with provider := q } : PageMemory).mapNext k = out at hmapped
      obtain ⟨_ | _, m', l⟩ := out
      · exact hmapped
      · rfl

/-- A start that fails shuts the provider down. -/
theorem givenUp {p : Provider} (hp : p.Fileless) (ht : Traced before (p.files ++ others) h.files) :
    Orderly { m with provider := (p.shutdown h).2.1, segments := [] }
      ∧ Traced before ((p.shutdown h).2.1.files ++ others) (p.shutdown h).2.2.files := by
  obtain ⟨hnone, htraced⟩ := Provider.shutdown_traced hp ht
  refine ⟨orderly_of_noFiles hnone, ?_⟩
  rw [hnone]
  exact htraced

/-- **Starting page memory makes no file that it does not keep a list of**, and if it fails there is
none. -/
theorem Orderly.start (hm : m.Orderly) (ht : Traced before (m.provider.files ++ others) h.files) :
    (m.start h).2.1.Orderly
      ∧ Traced before ((m.start h).2.1.provider.files ++ others) (m.start h).2.2.files := by
  unfold PageMemory.start
  split
  · exact ⟨hm, ht⟩
  · next hstopped =>
    rw [Bool.not_eq_true] at hstopped
    have hannounced := Provider.announce_traced (Segments.sizes m.initialSize m.maxSize)
      (hm.idle hstopped) (hm.idle hstopped ▸ ht)
    generalize m.provider.announce (Segments.sizes m.initialSize m.maxSize) h = out at hannounced
    obtain ⟨fault | _, q, k⟩ := out <;> obtain ⟨-, hnone, htraced⟩ := hannounced
    · exact givenUp (fun _ => hnone) (hnone ▸ htraced)
    · have htraced' : Traced before (q.files ++ others) k.files := by
        rw [hnone]
        exact htraced
      have hmapped := mapNext_traced (m := { m with provider := q }) (fun _ => hnone) htraced'
      simp only
      generalize ({ m with provider := q } : PageMemory).mapNext k = out at hmapped
      obtain ⟨fault | _, m', l⟩ := out
      · exact givenUp hmapped.1 hmapped.2
      · exact ⟨⟨hmapped.1, nofun⟩, hmapped.2⟩

/-- **Nothing is left of page memory that is stopped.** -/
theorem Orderly.stop (hm : m.Orderly) (ht : Traced before (m.provider.files ++ others) h.files) :
    (m.stop h).2.1.started = false ∧ (m.stop h).2.1.provider.files = []
      ∧ Traced before others (m.stop h).2.2.files := by
  unfold PageMemory.stop
  cases hstarted : m.started with
  | false =>
    rw [hm.idle hstarted] at ht
    exact ⟨hstarted, hm.idle hstarted, ht⟩
  | true =>
    obtain ⟨hnone, htraced⟩ := Provider.shutdown_traced hm.fileless ht
    exact ⟨rfl, hnone, htraced⟩

theorem Orderly.drop (hm : m.Orderly) (ht : Traced before (m.provider.files ++ others) h.files) :
    Traced before others (m.drop h).files := by
  unfold PageMemory.drop
  cases hstarted : m.started with
  | false => exact Provider.drop_traced hm.fileless ht
  | true =>
    obtain ⟨-, hnone, htraced⟩ := hm.stop ht
    refine Provider.drop_traced (fun _ => hnone) ?_
    rw [hnone]
    exact htraced

end PageMemory
end PageRegions
