import PageRegions.Metrics.RegionMetrics
import PageRegions.Tracker.Tracker

/-!
# Trackers without a region

What a tracker picks depends on what it was told and on which pages hold rows, and on nothing else.
So a tracker can be run beside a plain set of pages, with neither memory nor rows behind it. This
is the least state in which the order of its victims can be spoken of.
-/

set_option autoImplicit false

namespace PageRegions

/-- A tracker beside the pages that hold rows. -/
structure Replay where
  tracker : Tracker
  store : PageSet
  metrics : RegionMetrics
  /-- Whether evictions are counted in the metrics. -/
  measured : Bool
  evicted : Nat

namespace Replay

/-- A tracker of the given kind that has not been started, and no pages. -/
def fresh (kind : TrackerKind) (metrics : RegionMetrics) (measured : Bool) : Replay :=
  ⟨.fresh kind, ⟨[], none⟩, metrics, measured, 0⟩

def touch (r : Replay) (page : PageId) (now : UInt64) : Replay :=
  { r with tracker := r.tracker.touch page now }

def fill (r : Replay) (page : PageId) : Replay := { r with store := r.store.insert page }

/-- A page loses its rows, of which the tracker is not told. -/
def empty (r : Replay) (page : PageId) : Replay := { r with store := r.store.erase page }

/-- The tracker is told that a page was emptied. -/
def forget (r : Replay) (page : PageId) : Replay :=
  { r with tracker := r.tracker.forget r.store page }

/-- From now on the store refuses for the given reason, or no longer does. -/
def refuse (r : Replay) (refusal? : Option Fault) : Replay :=
  { r with store := { r.store with refusal? := refusal? } }

/-- Touches the given number of pages from one on, a microsecond apart. If `fills`, each of them
gets rows first. -/
def touchEach (fills : Bool) (first count : Nat) (r : Replay) (h : Host) : Replay × Host :=
  (List.range count).foldl (fun (r, h) i =>
    let h := h.advance 1
    let page := PageId.ofUInt64 (UInt64.ofNat (first + i))
    ((if fills then r.fill page else r).touch page h.now, h)) (r, h)

/-- Evicts a page, and counts it if there was one to evict. -/
def evict (r : Replay) (h : Host) : Except Fault (Option PageId) × Replay × Host :=
  match r.tracker.evict r.store h with
  | (.ok (some page), tracker, store, h) =>
    (.ok (some page),
      { r with
        tracker := tracker
        store := store
        metrics := if r.measured then r.metrics.countEviction h.now else r.metrics
        evicted := r.evicted + 1 }, h)
  | (result, tracker, store, h) =>
    (result, { r with tracker := tracker, store := store }, h)

end Replay

end PageRegions
