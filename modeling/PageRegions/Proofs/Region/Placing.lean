import PageRegions.Proofs.FreeList.Operations
import PageRegions.Proofs.Memory.Allocation
import PageRegions.Region

/-!
# Placing a row in a region

What placing a row without making room can end in, said once for the region as a whole: where the
free list finds a page for the row, what page memory does if it is asked for one, and that the
tracker is told. Page memory must be one that no page was given back to.
-/

set_option autoImplicit false

namespace PageRegions
namespace Region

/-- The counter of pages is not asked when one is allocated. -/
theorem metered_allocate (s : MeteredMemory) (h : Host) : ∃ metrics,
    s.allocate h = ((s.memory.allocate h).1, ⟨(s.memory.allocate h).2.1, metrics⟩,
      (s.memory.allocate h).2.2) := by
  obtain ⟨memory, metrics⟩ := s
  unfold MeteredMemory.allocate
  simp only
  rcases memory.allocate h with ⟨_ | _, m, k⟩ <;> exact ⟨_, rfl⟩

/-- What placing a row can end in. -/
inductive Placement (r : Region) (row : UInt32) (h : Host) :
    Except Fault PageId × Region × Host → Prop
  /-- There are no rows of this size. -/
  | refused (fault : Fault)
      (size : row = 0 ∧ fault = .emptyRow
        ∨ r.freeList.capacity < row ∧ fault = .rowTooLarge row r.freeList.capacity) :
      Placement r row h (.error fault, r, h)
  /-- It goes to a data page with room. -/
  | added (page : PageId) (fits : row ≤ r.freeList.capacity)
      (found : r.freeList.findRoom? row = some page) :
      Placement r row h (.ok page,
        { r with
          freeList := r.freeList.addRow page row
          tracker := r.tracker.touch page h.now }, h)
  /-- It goes to the latest page of the pool. -/
  | reopened (page : PageId) (g : FreeList) (fits : row ≤ r.freeList.capacity)
      (popped : r.freeList.popPool = some (page, g)) :
      Placement r row h (.ok page,
        { r with
          freeList := g.openPage page row
          tracker := r.tracker.touch page h.now }, h)
  /-- It goes to a page that was not allocated before. -/
  | opened (page : PageId) (m : PageMemory) (metrics : RegionMetrics) (k : Host)
      (fits : row ≤ r.freeList.capacity) (empty : r.freeList.pool = [])
      (started : r.store.memory.started = true) (new : r.store.memory.header? page = none)
      (headers : ∀ x, (m.header? x).isSome
        = (decide (x = page) || (r.store.memory.header? x).isSome))
      (inv : m.Inv k) (further : PageMemory.Further r.store.memory m)
      (loaded : m.loaded.toNat = r.store.memory.loaded.toNat + 1) :
      Placement r row h (.ok page,
        { r with
          freeList := r.freeList.openPage page row
          store := ⟨m, metrics⟩
          tracker := r.tracker.touch page k.now }, k)
  /-- There is no page for it. -/
  | unplaced (fault : Fault) (m : PageMemory) (metrics : RegionMetrics) (k : Host)
      (empty : r.freeList.pool = []) (headers : ∀ x, m.header? x = r.store.memory.header? x)
      (inv : m.Inv k) (further : PageMemory.Further r.store.memory m)
      (loaded : m.loaded = r.store.memory.loaded)
      (why : (r.store.memory.started = false ∧ fault = .memoryNotStarted r.store.memory.name)
        ∨ (fault = .outOfMemory r.store.memory.name r.store.memory.initialSize
            r.store.memory.maxSize r.store.memory.loaded
          ∧ r.store.memory.loaded.toNat = r.store.memory.total)
        ∨ fault.isMapping = true) :
      Placement r row h (.error fault, { r with store := ⟨m, metrics⟩ }, k)

theorem placeRow_placement {r : Region} {h : Host} (hmemory : r.store.memory.Inv h)
    (row : UInt32) : Placement r row h (r.placeRow row h) := by
  have hins := FreeList.insertRow_insertion
    (fun s : MeteredMemory × Host => s.1.allocate s.2) r.freeList row (r.store, h)
  obtain ⟨metrics, hmetered⟩ := metered_allocate r.store h
  have halloc := hmemory.allocate
  unfold placeRow
  generalize r.freeList.insertRow _ row (r.store, h) = out at hins
  generalize r.store.memory.allocate h = allocation at halloc hmetered
  cases hins with
  | refused fault size => exact .refused fault size
  | added page _ fits found => exact .added page fits found
  | reopened page g _ fits _ popped => exact .reopened page g fits popped
  | opened page t _ fits _ empty allocated =>
    have hasked : r.store.allocate h = (.ok page, t) := allocated
    rw [hmetered] at hasked
    cases halloc with
    | failed => cases hasked
    | allocated _ m k started new headers inv further loaded =>
      cases hasked
      exact .opened page m metrics k fits empty started new headers inv further loaded
  | unplaced fault t _ _ _ empty failed =>
    have hasked : r.store.allocate h = (.error fault, t) := failed
    rw [hmetered] at hasked
    cases halloc with
    | allocated => cases hasked
    | failed _ m k headers inv further loaded why =>
      cases hasked
      exact .unplaced fault m metrics k empty headers inv further loaded why

end Region
end PageRegions
