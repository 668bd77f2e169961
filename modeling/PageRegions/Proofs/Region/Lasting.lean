import PageRegions.Proofs.Memory.PageSizes
import PageRegions.Proofs.Region.MakingRoom
import PageRegions.Proofs.Region.Placing

/-!
# What no call changes

A region has settings, sizes and a kind of tracker from the time it is made, and whatever it is asked
for it keeps them (`Lasting`). That includes calls of its parts behind its back: evicting a page,
allocating one, starting and stopping.

What a call does to page memory is one of four things, or nothing (`PageMemory.Step`). So what those
keep is kept by every call, and by all calls in any order (`Run.memory`).
-/

set_option autoImplicit false

namespace PageRegions

/-- Trackers are started and stopped without a change of kind. -/
theorem Tracker.start_kind (t : Tracker) : t.start.kind = t.kind := by
  cases t <;> rfl

theorem Tracker.stop_kind (t : Tracker) : t.stop.kind = t.kind := by
  cases t <;> rfl

/-- All that a region can be asked for, by whomever. -/
def AnyCall (_ : Region) (_ : RegionCall) : Prop := True

namespace Region

variable {first r : Region} {host h : Host}

/-! ## Page memory -/

theorem placeRow_memory (r : Region) (row : UInt32) (h : Host) :
    PageMemory.Step r.store.memory (r.placeRow row h).2.1.store.memory := by
  have hins := FreeList.insertRow_insertion
    (fun s : MeteredMemory × Host => s.1.allocate s.2) r.freeList row (r.store, h)
  obtain ⟨metrics, hmetered⟩ := metered_allocate r.store h
  unfold placeRow
  generalize r.freeList.insertRow _ row (r.store, h) = out at hins
  cases hins with
  | refused | added | reopened => exact .same
  | opened page t _ _ _ _ allocated =>
    have hasked : r.store.allocate h = (.ok page, t) := allocated
    rw [hmetered] at hasked
    obtain rfl := (Prod.mk.inj hasked).2
    exact .allocate h
  | unplaced fault t _ _ _ _ failed =>
    have hasked : r.store.allocate h = (.error fault, t) := failed
    rw [hmetered] at hasked
    obtain rfl := (Prod.mk.inj hasked).2
    exact .allocate h

theorem insertRow_memory (r : Region) (row : UInt32) (h : Host) :
    PageMemory.Step r.store.memory (r.insertRow row h).2.1.store.memory := by
  have hroom := (r.ensureFreeSpace_parts h).2.1
  unfold insertRow
  generalize r.ensureFreeSpace h = out at hroom
  obtain ⟨_ | _ | _, s, k⟩ := out
  · rw [hroom]
    exact .same
  · rw [hroom]
    exact .same
  · rw [← hroom]
    exact s.placeRow_memory row k

/-- **What a call does to page memory.** -/
theorem perform_memory (r : Region) (h : Host) (c : RegionCall) :
    PageMemory.Step r.store.memory (r.perform h c).2.1.store.memory := by
  cases c with
  | start =>
    simp only [perform]
    rw [(r.start_parts h).2.1]
    exact .start h
  | stop =>
    unfold perform stop MeteredMemory.stop
    by_cases hstarted : r.started = true
    · rw [if_neg (by rw [hstarted]; exact Bool.false_ne_true)]
      exact .stop h
    · rw [Bool.not_eq_true] at hstarted
      rw [if_pos (by rw [hstarted]; rfl)]
      exact .same
  | ensure =>
    simp only [perform]
    rw [(r.ensureFreeSpace_parts h).2.1]
    exact .same
  | evict =>
    simp only [perform]
    rw [(r.evictPage_parts h).2.1]
    exact .same
  | insert row => exact r.insertRow_memory row h
  | remove page row =>
    unfold perform removeRow
    simp only
    rcases r.freeList.removeRow page row with ⟨_ | _, f⟩ <;> exact .same
  | dropRows | touch | recycle | take | measure => exact .same
  | allocate =>
    obtain ⟨metrics, hmetered⟩ := metered_allocate r.store h
    unfold perform allocatePage
    simp only [hmetered]
    exact .allocate h
  | free page =>
    have hstep : PageMemory.Step r.store.memory (r.store.memory.free page h).2.1 := .free page h
    unfold perform freePage MeteredMemory.free
    simp only
    generalize r.store.memory.free page h = out at hstep
    obtain ⟨_ | _, m, k⟩ := out <;> exact hstep

/-- What all steps of page memory keep is kept by all calls. -/
theorem Run.memory {may : Region → RegionCall → Prop} {I : PageMemory → Prop}
    (hstep : ∀ m m', I m → PageMemory.Step m m' → I m') (hfirst : I first.store.memory)
    (hrun : Run may first host r h) : I r.store.memory := by
  refine hrun.keeps (I := fun r _ => I r.store.memory) ?_ (fun _ _ _ hr _ => hr) hfirst
  intro r h c hr _
  exact hstep _ _ hr (r.perform_memory h c)

/-! ## Settings and trackers -/

/-- The idle tracker evicts nothing, and says that it succeeded. -/
theorem evictPage_of_idle (hidle : r.tracker.kind = .idle) (h : Host) :
    r.evictPage h = (.ok (), r, h) := by
  have htracker := Tracker.eq_idle hidle
  cases r
  simp only at htracker
  subst htracker
  rfl

/-- A region that calls made of another, and what it has in common with it. -/
structure Lasting (first r : Region) : Prop where
  options : r.options = first.options
  persistence : r.persistence = first.persistence
  coherent : r.tracker.Coherent
  kind : r.tracker.kind = first.tracker.kind

theorem Lasting.evictPage (hr : Lasting first r) (h : Host) :
    Lasting first (r.evictPage h).2.1 := by
  by_cases hidle : r.tracker.kind = .idle
  · rw [evictPage_of_idle hidle]
    exact hr
  · have hev := evictPage_eviction hr.coherent hidle h
    generalize r.evictPage h = out at hev
    cases hev with
    | evicted _ _ t _ _ _ _ coherent _ kind =>
      exact { hr with coherent := coherent, kind := kind.trans hr.kind }
    | refused _ _ t _ _ _ _ _ coherent _ kind =>
      exact { hr with coherent := coherent, kind := kind.trans hr.kind }

theorem Lasting.ensureFreeSpace (hr : Lasting first r) (h : Host) :
    Lasting first (r.ensureFreeSpace h).2.1 :=
  ensureFreeSpace_keeps (I := fun r _ => Lasting first r) (fun _ h hr => hr.evictPage h)
    (fun _ _ _ hr => hr) hr

theorem Lasting.touch (hr : Lasting first r) {s : Region} (page : PageId) (now : UInt64)
    (hoptions : s.options = r.options) (hpersistence : s.persistence = r.persistence)
    (htracker : s.tracker = r.tracker.touch page now) : Lasting first s where
  options := hoptions.trans hr.options
  persistence := hpersistence.trans hr.persistence
  coherent := by
    rw [htracker]
    exact hr.coherent.touch page now
  kind := by
    rw [htracker, Tracker.touch_kind]
    exact hr.kind

theorem Lasting.placeRow (hr : Lasting first r) (row : UInt32) (h : Host) :
    Lasting first (r.placeRow row h).2.1 := by
  unfold Region.placeRow
  generalize r.freeList.insertRow _ row (r.store, h) = out
  obtain ⟨_ | page, f, store, k⟩ := out
  · exact { hr with }
  · exact hr.touch page k.now rfl rfl rfl

theorem Lasting.insertRow (hr : Lasting first r) (row : UInt32) (h : Host) :
    Lasting first (r.insertRow row h).2.1 :=
  insertRow_keeps (I := fun r _ => Lasting first r) (fun _ h hr => hr.placeRow row h)
    (hr.ensureFreeSpace h)

theorem Lasting.removeRow (hr : Lasting first r) (page : PageId) (row : UInt32) :
    Lasting first (r.removeRow page row).2 := by
  unfold Region.removeRow
  rcases r.freeList.removeRow page row with ⟨_ | emptied, f⟩
  · exact { hr with }
  · cases emptied with
    | false => exact { hr with }
    | true =>
      exact { hr with
        coherent := (hr.coherent.forget f page).1
        kind := (Tracker.forget_kind _ _ _).trans hr.kind }

theorem Lasting.start (hr : Lasting first r) (h : Host) : Lasting first (r.start h).2.1 := by
  unfold Region.start
  rcases r.store.start h with ⟨_ | _, store, k⟩
  · exact { hr with }
  · exact { hr with
      coherent := hr.coherent.start
      kind := (Tracker.start_kind _).trans hr.kind }

theorem Lasting.stop (hr : Lasting first r) (h : Host) : Lasting first (r.stop h).2.1 := by
  unfold Region.stop
  split
  · exact hr
  · exact { hr with
      coherent := Tracker.coherent_stop r.tracker
      kind := (Tracker.stop_kind _).trans hr.kind }

/-- **What one call keeps.** -/
theorem Lasting.perform (hr : Lasting first r) (h : Host) (c : RegionCall) :
    Lasting first (r.perform h c).2.1 := by
  cases c with
  | start => exact hr.start h
  | stop => exact hr.stop h
  | ensure => exact hr.ensureFreeSpace h
  | evict => exact hr.evictPage h
  | insert row => exact hr.insertRow row h
  | remove page row => exact hr.removeRow page row
  | dropRows | allocate | free | recycle | take | measure => exact { hr with }
  | touch page => exact hr.touch page h.now rfl rfl rfl

/-- **What all calls keep.** -/
theorem Run.lasting {may : Region → RegionCall → Prop} (hcoherent : first.tracker.Coherent)
    (hrun : Run may first host r h) : Lasting first r :=
  hrun.keeps (I := fun r _ => Lasting first r) (fun _ h c hr _ => hr.perform h c)
    (fun _ _ _ hr _ => hr) ⟨rfl, rfl, hcoherent, rfl⟩

theorem Run.sameSizes {may : Region → RegionCall → Prop} (hrun : Run may first host r h) :
    PageMemory.SameSizes first.store.memory r.store.memory :=
  hrun.memory (I := PageMemory.SameSizes first.store.memory)
    (fun _ _ hm hstep => hm.trans hstep.sameSizes) (.refl _)

/-- Calls that are allowed of every region make a run. -/
theorem Run.performEach {may : Region → RegionCall → Prop} (calls : List RegionCall)
    (hmay : ∀ c ∈ calls, ∀ r, may r c) (hrun : Run may first host r h) :
    Run may first host (r.performEach h calls).1 (r.performEach h calls).2 := by
  induction calls generalizing r h with
  | nil => exact hrun
  | cons c more ih =>
    exact ih (fun x hx => hmay x (List.mem_cons_of_mem _ hx))
      (hrun.call c (hmay c List.mem_cons_self r))

end Region
end PageRegions
