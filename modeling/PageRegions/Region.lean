import PageRegions.Admission
import PageRegions.FreeList
import PageRegions.Memory.Metered
import PageRegions.Tracker.Tracker

/-!
# Regions

A region puts page memory, a free list, a tracker and metrics together. Before a row is placed room
is made; a page that gets a row is touched; a page that loses its last row is forgotten. Evicting a
page drops its rows, and the page goes to the pool of the free list.

A region that is stopped loses its memory and its tracker's pages, but the accounts of its free list
stay.

Placing rows and making room have an outcome more than other operations: `none`, they never return
(see the module on admission).
-/

set_option autoImplicit false

namespace PageRegions

instance : RowStore FreeList := ⟨FreeList.holds, FreeList.evict⟩

structure Region where
  options : RegionOptions
  /-- Whether this region is used where none is named. -/
  isDefault : Bool
  /-- Whether pages are kept on disk by others, so that none is evicted. -/
  persistence : Bool
  store : MeteredMemory
  freeList : FreeList
  tracker : Tracker
  started : Bool

namespace Region

def fresh (now : UInt64) (o : RegionOptions) (pageSize : UInt32) (isDefault persistence : Bool)
    (kind : TrackerKind) (backing : Backing) (hasDirectory : Bool) : Region where
  options := o
  isDefault := isDefault
  persistence := persistence
  store :=
    ⟨PageMemory.fresh o pageSize backing,
      RegionMetrics.fresh now o (some ⟨hasDirectory, false, 0⟩)⟩
  freeList := FreeList.fresh o.name pageSize
  tracker := Tracker.fresh kind
  started := false

def name (r : Region) : String := r.options.name

def loaded (r : Region) : UInt64 := r.store.memory.loaded

def pooled (r : Region) : UInt64 := UInt64.ofNat r.freeList.pooled

/-! ## Starting and stopping -/

/-- Maps the first memory and starts the tracker. -/
def start (r : Region) (h : Host) : Except Fault Unit × Region × Host :=
  match r.store.start h with
  | (.error fault, store, h) =>
    (.error fault, { r with store := store },
      h.note .error ("Failed to start page memory of region " ++ Text.visible r.name ++ ": "
        ++ fault.text))
  | (.ok (), store, h) =>
    let tracker := r.tracker.start
    (.ok (), { r with store := store, tracker := tracker, started := true },
      h.note .info ("Started region " ++ Text.visible r.name ++ " [default="
        ++ flag r.isDefault ++ ", tracker=" ++ tracker.kind.trackerName ++ "]"))

/-- Stops the tracker and gives all memory back. -/
def stop (r : Region) (h : Host) : Except Fault Unit × Region × Host :=
  if !r.started then (.ok (), r, h)
  else
    let (result, store, h) := r.store.stop h
    let h :=
      match result with
      | .error fault =>
        h.note .error ("Failed to stop page memory of region " ++ Text.visible r.name ++ ": "
          ++ fault.text)
      | .ok () => h.note .info ("Stopped region " ++ Text.visible r.name)
    (result, { r with store := store, tracker := r.tracker.stop, started := false }, h)

/-- What is left on the host when a region is dropped. -/
def drop (r : Region) (h : Host) : Host :=
  let (_, r, h) := r.stop h
  r.store.memory.drop h

/-! ## Making room -/

def evictPage (r : Region) (h : Host) : Except Fault Unit × Region × Host :=
  match r.tracker.evict r.freeList h with
  | (.ok (some _), tracker, freeList, h) =>
    (.ok (),
      { r with
        tracker := tracker
        freeList := freeList
        store := { r.store with metrics := r.store.metrics.countEviction h.now } }, h)
  | (.ok none, tracker, freeList, h) =>
    (.ok (), { r with tracker := tracker, freeList := freeList }, h)
  | (.error fault, tracker, freeList, h) =>
    (.error fault, { r with tracker := tracker, freeList := freeList }, h)

/-- The pages of a region on its host. -/
def supply : Supply (Region × Host) where
  loaded := fun (r, _) => r.loaded
  pooled := fun (r, _) => r.pooled
  evict := fun (r, h) =>
    let (result, r, h) := r.evictPage h
    (result, (r, h))

/-- Evicts pages until the region is at its watermark or its pool is full enough. -/
def ensureFreeSpace (r : Region) (h : Host) : Option (Except Fault Unit) × Region × Host :=
  let (result, notes, r, h) :=
    r.options.ensureRoom r.persistence r.store.memory.systemPageSize supply (r, h)
  (result, r, h.record notes)

/-! ## Rows -/

def placeRow (r : Region) (row : UInt32) (h : Host) : Except Fault PageId × Region × Host :=
  let (result, freeList, store, h) :=
    r.freeList.insertRow
      (fun (s : MeteredMemory × Host) => s.1.allocate s.2) row (r.store, h)
  let tracker :=
    match result with
    | .ok page => r.tracker.touch page h.now
    | .error _ => r.tracker
  (result, { r with freeList := freeList, store := store, tracker := tracker }, h)

/-- Makes room and places a row: on which page. -/
def insertRow (r : Region) (row : UInt32) (h : Host) :
    Option (Except Fault PageId) × Region × Host :=
  match r.ensureFreeSpace h with
  | (none, r, h) => (none, r, h)
  | (some (.error fault), r, h) => (some (.error fault), r, h)
  | (some (.ok ()), r, h) =>
    let (result, r, h) := r.placeRow row h
    (some result, r, h)

/-- Places up to the given number of rows: those pages that got one, until the first fault. -/
def insertRows (r : Region) (row : UInt32) : Nat → Host →
    Option (Except Fault Unit) × List PageId × Region × Host
  | 0, h => (some (.ok ()), [], r, h)
  | n + 1, h =>
    match r.insertRow row h with
    | (none, r, h) => (none, [], r, h)
    | (some (.error fault), r, h) => (some (.error fault), [], r, h)
    | (some (.ok page), r, h) =>
      let (result, more, r, h) := r.insertRows row n h
      (result, page :: more, r, h)

def removeRow (r : Region) (page : PageId) (row : UInt32) : Except Fault Unit × Region :=
  match r.freeList.removeRow page row with
  | (.error fault, freeList) => (.error fault, { r with freeList := freeList })
  | (.ok emptied, freeList) =>
    let tracker := if emptied then r.tracker.forget freeList page else r.tracker
    (.ok (), { r with freeList := freeList, tracker := tracker })

/-- Drops all rows of a page, of which the tracker is not told. -/
def dropRows (r : Region) (page : PageId) : Except Fault Unit × Region :=
  let (result, freeList) := r.freeList.evict page
  (result, { r with freeList := freeList })

def touch (r : Region) (page : PageId) (h : Host) : Region :=
  { r with tracker := r.tracker.touch page h.now }

/-! ## Pages -/

/-- Allocates a page that the free list is not told of. -/
def allocatePage (r : Region) (h : Host) : Except Fault PageId × Region × Host :=
  let (result, store, h) := r.store.allocate h
  (result, { r with store := store }, h)

def freePage (r : Region) (page : PageId) (h : Host) : Except Fault Unit × Region × Host :=
  let (result, store, h) := r.store.free page h
  (result, { r with store := store }, h)

def recycle (r : Region) (page : PageId) (h : Host) : Except Fault Unit × Region :=
  let (result, freeList) := r.freeList.recycle (r.store.memory.isAllocated h) page
  (result, { r with freeList := freeList })

def takeRecycled (r : Region) : Except Fault PageId × Region :=
  let (result, freeList) := r.freeList.takeRecycled
  (result, { r with freeList := freeList })

/-! ## Metrics -/

def withMetrics (r : Region) (metrics : RegionMetrics) : Region :=
  { r with store := { r.store with metrics := metrics } }

def snapshot (r : Region) (directory : ListDirectory) (h : Host) : MetricsSnapshot × Region :=
  let (snapshot, metrics) := r.store.metrics.snapshot h.now directory
  (snapshot, r.withMetrics metrics)

end Region

end PageRegions
