import PageRegions.Proofs.Memory.Tidy
import PageRegions.Proofs.Region.Calls
import PageRegions.Proofs.Region.Placing

/-!
# The files of a region

Of all that a region can be asked for, only starting, stopping and what needs a new page reaches the
files, and that is the business of its page memory. So what holds of page memory holds of the
region: it touches no file but its own, and the chunks that it has mapped have their files
(`Tidy.perform`).
-/

set_option autoImplicit false

namespace PageRegions
namespace Region

variable {r : Region} {h : Host}

/-- Whether the files of a region are those of its chunks. -/
def Tidy (r : Region) (t : FileTree) : Prop := r.store.memory.Tidy t

/-- What a call does to a region that is tidy. Its settings stay. -/
structure KeptFiles (r : Region) (t : FileTree) (r' : Region) (t' : FileTree) : Prop where
  options : r'.options = r.options
  memory : PageMemory.KeptFiles r.store.memory t r'.store.memory t'

theorem KeptFiles.trans {r' r'' : Region} {t t' t'' : FileTree} (hk : KeptFiles r t r' t')
    (hk' : KeptFiles r' t' r'' t'') : KeptFiles r t r'' t'' :=
  ⟨hk'.options.trans hk.options, hk.memory.trans hk'.memory⟩

/-- What leaves page memory and the files alone. -/
theorem Tidy.same {r' : Region} {t t' : FileTree} (hr : r.Tidy t)
    (hoptions : r'.options = r.options)
    (hmemory : r'.store.memory = r.store.memory) (hfiles : t' = t) : KeptFiles r t r' t' := by
  refine ⟨hoptions, ?_⟩
  rw [hmemory, hfiles]
  exact PageMemory.Tidy.refl hr

theorem Tidy.frame {k : Host} {touched : List String → Prop} (hr : r.Tidy h.files)
    (hframe : FileTree.Frame touched h.files k.files)
    (hout : ∀ target, r.store.memory.provider.backing.Claims h.files target → ¬ touched target) :
    r.Tidy k.files :=
  PageMemory.Tidy.frame hr hframe hout

/-! ## Starting and stopping -/

theorem Tidy.start (hr : r.Tidy h.files) (hproper : h.files.Proper) :
    KeptFiles r h.files (r.start h).2.1 (r.start h).2.2.files := by
  obtain ⟨-, hmemory, hoptions, hfiles⟩ := r.start_parts h
  refine ⟨hoptions, ?_⟩
  rw [hmemory, hfiles]
  exact PageMemory.Tidy.start hr hproper

/-- A region that was started has page memory that was started. -/
theorem start_ok_memory {r' : Region} {k : Host} (hok : r.start h = (.ok (), r', k)) :
    ∃ l, r.store.memory.start h = (.ok (), r'.store.memory, l) ∧ k.files = l.files := by
  unfold Region.start MeteredMemory.start at hok
  simp only at hok
  rcases hmemory : r.store.memory.start h with ⟨_ | _, m, l⟩ <;> rw [hmemory] at hok <;>
    cases hok
  exact ⟨l, rfl, rfl⟩

theorem Tidy.stop (hr : r.Tidy h.files) :
    KeptFiles r h.files (r.stop h).2.1 (r.stop h).2.2.files := by
  have hstopped := PageMemory.Tidy.stop hr
  unfold Region.stop MeteredMemory.stop
  split
  · exact hr.same rfl rfl rfl
  · simp only
    generalize r.store.memory.stop h = out at hstopped
    obtain ⟨_ | _, m, k⟩ := out <;> exact ⟨rfl, hstopped⟩

/-! ## Making room and placing rows -/

theorem Tidy.ensureFreeSpace (hr : r.Tidy h.files) :
    KeptFiles r h.files (r.ensureFreeSpace h).2.1 (r.ensureFreeSpace h).2.2.files := by
  obtain ⟨hoptions, hmemory, hfiles⟩ := r.ensureFreeSpace_parts h
  exact hr.same hoptions hmemory hfiles

theorem Tidy.placeRow (hr : r.Tidy h.files) (row : UInt32) :
    KeptFiles r h.files (r.placeRow row h).2.1 (r.placeRow row h).2.2.files := by
  have hins := FreeList.insertRow_insertion
    (fun s : MeteredMemory × Host => s.1.allocate s.2) r.freeList row (r.store, h)
  obtain ⟨metrics, hmetered⟩ := metered_allocate r.store h
  have hallocated := PageMemory.Tidy.allocate hr
  unfold Region.placeRow
  generalize r.freeList.insertRow _ row (r.store, h) = out at hins
  cases hins with
  | refused | added | reopened => exact hr.same rfl rfl rfl
  | opened page t _ _ _ _ allocated =>
    have hasked : r.store.allocate h = (.ok page, t) := allocated
    rw [hmetered] at hasked
    obtain rfl := (Prod.mk.inj hasked).2
    exact ⟨rfl, hallocated⟩
  | unplaced fault t _ _ _ _ failed =>
    have hasked : r.store.allocate h = (.error fault, t) := failed
    rw [hmetered] at hasked
    obtain rfl := (Prod.mk.inj hasked).2
    exact ⟨rfl, hallocated⟩

theorem Tidy.insertRow (hr : r.Tidy h.files) (row : UInt32) :
    KeptFiles r h.files (r.insertRow row h).2.1 (r.insertRow row h).2.2.files := by
  have hroom := hr.ensureFreeSpace
  unfold Region.insertRow
  generalize r.ensureFreeSpace h = out at hroom
  obtain ⟨_ | _ | _, r', k⟩ := out
  · exact hroom
  · exact hroom
  · exact hroom.trans (Tidy.placeRow hroom.memory.tidy row)

/-! ## All calls -/

/-- **Whatever a region is asked for**, it touches no file but its own, and it has the files of its
chunks. -/
theorem Tidy.perform (hr : r.Tidy h.files) (hproper : h.files.Proper) (c : RegionCall) :
    KeptFiles r h.files (r.perform h c).2.1 (r.perform h c).2.2.files := by
  cases c with
  | start => exact hr.start hproper
  | stop => exact hr.stop
  | ensure => exact hr.ensureFreeSpace
  | evict =>
    obtain ⟨hoptions, hmemory, hfiles⟩ := r.evictPage_parts h
    exact hr.same hoptions hmemory hfiles
  | insert row => exact hr.insertRow row
  | remove page row =>
    unfold Region.perform Region.removeRow
    simp only
    rcases r.freeList.removeRow page row with ⟨_ | _, f⟩ <;> exact hr.same rfl rfl rfl
  | dropRows | touch | recycle | take | measure => exact hr.same rfl rfl rfl
  | allocate =>
    obtain ⟨metrics, hmetered⟩ := metered_allocate r.store h
    have hallocated := PageMemory.Tidy.allocate hr
    unfold Region.perform Region.allocatePage
    simp only [hmetered]
    exact ⟨rfl, hallocated⟩
  | free page =>
    have hfreed := PageMemory.Tidy.free hr page
    unfold Region.perform Region.freePage MeteredMemory.free
    simp only
    generalize r.store.memory.free page h = out at hfreed
    obtain ⟨_ | _, m, k⟩ := out <;> exact ⟨rfl, hfreed⟩

end Region
end PageRegions
