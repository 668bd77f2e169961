import PageRegions.Proofs.Memory.Leftovers
import PageRegions.Proofs.Registry.Isolation

/-!
# What is left when a registry does not become active

Activating can fail in many places: the settings are refused, a directory cannot be made, or one of
the regions cannot clear its directory or map its first memory, when any number of others have been
started before. Whatever the place, no file is left that was made on the way (`install_failed`), and
who held a registry before holds it still.

It takes no knowledge of where a start can fail, nor of which regions share a directory. Each region
that is orderly keeps a list of its files while it is started, and none otherwise, so the lists of
all regions together trace all that was made, after each step. Stopping them works the lists off.
-/

set_option autoImplicit false

namespace PageRegions

open FileTree

namespace Region

variable {before : FileTree} {others : List String} {r : Region} {h : Host}

/-- A region whose memory is in order, and started just if the region is. -/
structure Orderly (r : Region) : Prop where
  memory : r.store.memory.Orderly
  same : r.store.memory.started = r.started

theorem Orderly.start (hr : r.Orderly) (ht : Traced before (r.swapFiles ++ others) h.files) :
    (r.start h).2.1.Orderly
      ∧ Traced before ((r.start h).2.1.swapFiles ++ others) (r.start h).2.2.files := by
  have hmemory := hr.memory.start ht
  have hstarted := r.store.memory.start_started h
  have hagain : r.started = true → (r.store.memory.start h).1 = .ok () := fun hstarted => by
    unfold PageMemory.start
    rw [if_pos (hr.same.trans hstarted)]
  unfold Region.start MeteredMemory.start
  simp only
  generalize r.store.memory.start h = out at hmemory hstarted hagain
  obtain ⟨fault | _, m, k⟩ := out
  · refine ⟨⟨hmemory.1, ?_⟩, hmemory.2⟩
    cases hr' : r.started with
    | false => exact hstarted
    | true => cases hagain hr'
  · exact ⟨⟨hmemory.1, hstarted⟩, hmemory.2⟩

/-- **Nothing is left of a region that is stopped.** -/
theorem Orderly.stop (hr : r.Orderly) (ht : Traced before (r.swapFiles ++ others) h.files) :
    (r.stop h).2.1.Orderly ∧ (r.stop h).2.1.swapFiles = []
      ∧ Traced before others (r.stop h).2.2.files := by
  unfold Region.stop
  split
  · next hstopped =>
    rw [Bool.not_eq_true', ← hr.same] at hstopped
    have hnone : r.swapFiles = [] := hr.memory.idle hstopped
    rw [hnone] at ht
    exact ⟨hr, hnone, ht⟩
  · obtain ⟨hstopped, hnone, htraced⟩ := hr.memory.stop ht
    unfold MeteredMemory.stop
    simp only
    generalize r.store.memory.stop h = out at hstopped hnone htraced
    obtain ⟨fault | _, m, k⟩ := out <;>
      exact ⟨⟨PageMemory.orderly_of_noFiles hnone, hstopped⟩, hnone, htraced⟩

theorem Orderly.drop (hr : r.Orderly) (ht : Traced before (r.swapFiles ++ others) h.files) :
    Traced before others (r.drop h).files := by
  obtain ⟨horderly, hnone, htraced⟩ := hr.stop ht
  unfold Region.drop
  refine horderly.memory.drop (m := (r.stop h).2.1.store.memory) (h := (r.stop h).2.2) ?_
  rw [show (r.stop h).2.1.store.memory.provider.files = [] from hnone]
  exact htraced

end Region

namespace Registry

variable {before : FileTree} {others : List String} {rs : List Region} {g : Registry} {h : Host}

/-- The files of some regions. -/
def swapFilesOf (rs : List Region) : List String := rs.flatMap Region.swapFiles

theorem swapFilesOf_cons (r : Region) (rs : List Region) :
    swapFilesOf (r :: rs) = r.swapFiles ++ swapFilesOf rs := rfl

/-! ## Starting and stopping -/

/-- **As far as regions are started, their files are those of the regions.** -/
theorem startEach_traced (hrs : ∀ r ∈ rs, r.Orderly)
    (ht : Traced before (swapFilesOf rs ++ others) h.files) :
    (∀ r ∈ (startEach rs h).2.1, r.Orderly)
      ∧ Traced before (swapFilesOf (startEach rs h).2.1 ++ others) (startEach rs h).2.2.files := by
  induction rs generalizing h others with
  | nil => exact ⟨hrs, ht⟩
  | cons r rest ih =>
    obtain ⟨hr, hrest⟩ := List.forall_mem_cons.mp hrs
    rw [swapFilesOf_cons, List.append_assoc] at ht
    obtain ⟨hstarted, htraced⟩ := hr.start ht
    unfold startEach
    generalize r.start h = out at hstarted htraced
    obtain ⟨fault | _, r', k⟩ := out
    · refine ⟨List.forall_mem_cons.mpr ⟨hstarted, hrest⟩, ?_⟩
      rw [swapFilesOf_cons, List.append_assoc]
      exact htraced
    · have hrest' : Traced before (swapFilesOf rest ++ (r'.swapFiles ++ others)) k.files := by
        refine htraced.mono fun path => ?_
        simp only [List.mem_append]
        tauto
      obtain ⟨hmore, htraced'⟩ := ih hrest hrest'
      simp only
      generalize startEach rest k = out at hmore htraced'
      obtain ⟨result, more, k'⟩ := out
      refine ⟨List.forall_mem_cons.mpr ⟨hstarted, hmore⟩, htraced'.mono fun path => ?_⟩
      simp only [swapFilesOf_cons, List.mem_append]
      tauto

theorem stopEach_traced (hrs : ∀ r ∈ rs, r.Orderly)
    (ht : Traced before (swapFilesOf rs ++ others) h.files) :
    (∀ r ∈ (stopEach rs h).1, r.Orderly) ∧ swapFilesOf (stopEach rs h).1 = []
      ∧ Traced before others (stopEach rs h).2.files := by
  induction rs generalizing h others with
  | nil => exact ⟨hrs, rfl, ht⟩
  | cons r rest ih =>
    obtain ⟨hr, hrest⟩ := List.forall_mem_cons.mp hrs
    have hrest' : Traced before (swapFilesOf rest ++ (r.swapFiles ++ others)) h.files := by
      refine ht.mono fun path => ?_
      simp only [swapFilesOf_cons, List.mem_append]
      tauto
    obtain ⟨hmore, hnone, htraced⟩ := ih hrest hrest'
    unfold stopEach
    generalize stopEach rest h = out at hmore hnone htraced
    obtain ⟨more, k⟩ := out
    obtain ⟨hstopped, hnone', htraced'⟩ := hr.stop htraced
    simp only
    generalize r.stop k = out at hstopped hnone' htraced'
    obtain ⟨result, r', k'⟩ := out
    refine ⟨List.forall_mem_cons.mpr ⟨hstopped, hmore⟩, ?_, htraced'⟩
    rw [swapFilesOf_cons, hnone, show r'.swapFiles = [] from hnone', List.append_nil]

theorem dropEach_traced (hrs : ∀ r ∈ rs, r.Orderly)
    (ht : Traced before (swapFilesOf rs ++ others) h.files) :
    Traced before others (dropEach rs h).files := by
  induction rs generalizing h with
  | nil => exact ht
  | cons r rest ih =>
    obtain ⟨hr, hrest⟩ := List.forall_mem_cons.mp hrs
    rw [swapFilesOf_cons, List.append_assoc] at ht
    exact ih hrest (hr.drop ht)

theorem discard_traced (hrs : ∀ r ∈ rs, r.Orderly)
    (ht : Traced before (swapFilesOf rs ++ others) h.files) :
    Traced before others (discard rs h).files := by
  obtain ⟨hstopped, hnone, htraced⟩ := stopEach_traced hrs ht
  unfold discard
  generalize stopEach rs h = out at hstopped hnone htraced
  obtain ⟨stopped, k⟩ := out
  refine dropEach_traced hstopped ?_
  rw [show swapFilesOf stopped = [] from hnone]
  exact htraced

/-! ## Making regions -/

/-- Regions that were made have no files yet. -/
structure Unstarted (g : Registry) : Prop where
  orderly : ∀ r ∈ g.regions, r.Orderly
  none : swapFilesOf g.regions = []

theorem unstarted_fresh (id : Nat) (o : MemoryOptions) : (fresh id o).Unstarted :=
  ⟨fun _ hr => absurd hr List.not_mem_nil, rfl⟩

theorem addRegion_traced (hg : g.Unstarted) (o : RegionOptions) (isDefault : Bool)
    (ht : Traced before others h.files) :
    (g.addRegion o isDefault h).2.1.Unstarted
      ∧ Traced before others (g.addRegion o isDefault h).2.2.files := by
  unfold addRegion
  split
  · exact ⟨hg, ht⟩
  simp only
  generalize hmade : Region.fresh h.now o g.options.effectivePageSize isDefault
    g.options.persistence (TrackerKind.select o.mode g.options.persistence g.options.fairFifo)
    (g.options.backing o) true = r
  have hnone : r.swapFiles = [] := by rw [← hmade]; rfl
  have hadded : Unstarted { g with regions := g.regions ++ [r] } := by
    refine ⟨List.forall_mem_append.mpr ⟨hg.orderly, List.forall_mem_singleton.mpr ?_⟩, ?_⟩
    · rw [← hmade]
      exact ⟨PageMemory.orderly_of_noFiles rfl, rfl⟩
    · rw [swapFilesOf, List.flatMap_append, List.flatMap_singleton, hnone, List.append_nil]
      exact hg.none
  split
  · exact ⟨hadded, ht⟩
  · next directory _ =>
    have hensured := ht.ensureDirectories directory
    rw [← Host.files_ensureDirectories] at hensured
    generalize h.ensureDirectories directory = out at hensured
    obtain ⟨_ | _, k⟩ := out
    · exact ⟨hg, hensured⟩
    · exact ⟨hadded, hensured⟩

theorem addPlanned_traced (hg : g.Unstarted) (planned : List PlannedRegion)
    (ht : Traced before others h.files) :
    (g.addPlanned planned h).2.1.Unstarted
      ∧ Traced before others (g.addPlanned planned h).2.2.files := by
  induction planned generalizing g h with
  | nil => exact ⟨hg, ht⟩
  | cons p rest ih =>
    have hadded := addRegion_traced (h := h.record p.notes) hg p.options p.isDefault ht
    unfold addPlanned
    generalize g.addRegion p.options p.isDefault (h.record p.notes) = out at hadded
    obtain ⟨fault | _, g', k⟩ := out
    · exact hadded
    · exact ih hadded.1 hadded.2

/-! ## Activating -/

/-- **Nothing is left of the regions of a registry that does not come up**: neither of those that
were made nor of those that were started. -/
theorem bringUp_failed {m : Machine} {fault : Fault} {h' : Host} (hg : g.Unstarted)
    (hfail : bringUp m g h = (.error fault, h')) : Traced h.files [] h'.files := by
  obtain ⟨hmade, htraced⟩ := addPlanned_traced hg (g.options.plan m) (.refl h.files)
  unfold bringUp at hfail
  generalize g.addPlanned (g.options.plan m) h = out at hmade htraced hfail
  obtain ⟨fault' | _, g', k⟩ := out
  · cases hfail
    refine dropEach_traced hmade.orderly ?_
    rw [hmade.none]
    exact htraced
  · have hready : Traced h.files (swapFilesOf g'.regions ++ []) k.files := by
      rw [hmade.none]
      exact htraced
    obtain ⟨hstarted, htraced'⟩ := startEach_traced hmade.orderly hready
    simp only at hfail
    generalize startEach g'.regions k = out at hstarted htraced' hfail
    obtain ⟨fault' | _, rs, k'⟩ := out
    · cases hfail
      exact discard_traced hstarted htraced'
    · cases hfail

theorem activate_failed {m : Machine} {id : Nat} {o : MemoryOptions} {fault : Fault} {h' : Host}
    (hfail : activate m id o h = (.error fault, h')) : Traced h.files [] h'.files := by
  unfold activate at hfail
  simp only at hfail
  split at hfail
  · cases hfail
    exact .refl _
  · have htraced := bringUp_failed (unstarted_fresh id _) hfail
    exact htraced

/-- **A registry that does not become active leaves nothing behind.** Whatever the settings are,
whatever the host is and wherever it failed, the place for it holds what it held, and there is no
file that was not there before, just as it is now. Only directories may have been made. -/
theorem install_failed {m : Machine} {id : Nat} {o : MemoryOptions} {held? held?' : Option Registry}
    {fault : Fault} {h' : Host} (hfail : install m id o held? h = (.error fault, held?', h')) :
    held?' = held? ∧ ∀ target entry, h'.files.entry? target = some entry → entry ≠ .directory →
      h.files.entry? target = some entry := by
  unfold install at hfail
  rcases hactivated : activate m id o h with ⟨fault' | g, k⟩
  · rw [hactivated] at hfail
    cases hfail
    refine ⟨rfl, fun target entry hfound hfile => ?_⟩
    exact (activate_failed hactivated target entry hfound hfile).resolve_right nofun
  · rw [hactivated] at hfail
    cases held? <;> cases hfail

/-- An empty host on which memory can be mapped three times. -/
def crowdedHost : Host := { emptyHost with refuses := fun n => n = 3 }

/-- Two regions with one directory and one of fresh memory have been started when a fourth cannot
be. The file of the second is gone, and so is that of the first, which the second deleted. -/
theorem install_failed_shared_directory :
    ∃ fault h', install ⟨0, 0⟩ 0 (twoSwapping "swap" "swap") (some (fresh 7 .usual)) crowdedHost
        = (.error fault, some (fresh 7 .usual), h')
      ∧ h'.attempts = 4
      ∧ h'.files.resolve "swap/local" = .ok ["tmp", "session", "swap", "local"]
      ∧ ∀ target entry, h'.files.entry? target = some entry → entry ≠ .directory →
        crowdedHost.files.entry? target = some entry := by
  have hrun : ∃ out, install ⟨0, 0⟩ 0 (twoSwapping "swap" "swap") (some (fresh 7 .usual))
      crowdedHost = out ∧ (out.1.isOk = false ∧ out.2.2.attempts = 4
        ∧ out.2.2.files.resolve "swap/local" = .ok ["tmp", "session", "swap", "local"]) :=
    ⟨_, rfl, by decide +kernel⟩
  obtain ⟨⟨fault | _, held?, h'⟩, hout, hfails, hattempts, hdirectory⟩ := hrun
  · obtain ⟨rfl, hleft⟩ := install_failed hout
    exact ⟨fault, h', hout, hattempts, hdirectory, hleft⟩
  · cases hfails

end Registry
end PageRegions
