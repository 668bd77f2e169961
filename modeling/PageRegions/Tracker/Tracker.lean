import PageRegions.Tracker.Kind
import PageRegions.Tracker.Queued
import PageRegions.Tracker.Sampled

/-!
# Trackers

A tracker is told which pages of a region are in use and picks the page to drop when the region runs
out of room. The idle tracker is for regions that never evict: it remembers nothing, and its
evictions succeed without a victim.
-/

set_option autoImplicit false

namespace PageRegions

inductive Tracker where
  | idle
  | sampled (tracker : SampledTracker)
  | queued (tracker : QueuedTracker)

namespace Tracker

def fresh : TrackerKind → Tracker
  | .idle => .idle
  | .lru => .sampled (SampledTracker.fresh .latest)
  | .lru2 => .sampled (SampledTracker.fresh .secondLatest)
  | .fairQueue => .queued QueuedTracker.fresh

def kind : Tracker → TrackerKind
  | .idle => .idle
  | .sampled t =>
    match t.recency with
    | .latest => .lru
    | .secondLatest => .lru2
  | .queued _ => .fairQueue

def start : Tracker → Tracker
  | .idle => .idle
  | .sampled t => .sampled t.start
  | .queued t => .queued t.start

/-- Stops a tracker. It forgets all pages. -/
def stop : Tracker → Tracker
  | .idle => .idle
  | .sampled t => .sampled t.stop
  | .queued t => .queued t.stop

def touch (t : Tracker) (page : PageId) (now : UInt64) : Tracker :=
  match t with
  | .idle => .idle
  | .sampled t => .sampled (t.touch page now)
  | .queued t => .queued (t.touch page)

/-- A page was emptied. This is ignored if it holds rows again. -/
def forget {σ : Type} [RowStore σ] (t : Tracker) (store : σ) (page : PageId) : Tracker :=
  match t with
  | .idle => .idle
  | .sampled t => .sampled (t.forget store page)
  | .queued t => .queued (t.forget store page)

/-- Evicts a page: which one, if any was to be evicted. -/
def evict {σ : Type} [RowStore σ] (t : Tracker) (store : σ) (h : Host) :
    Except Fault (Option PageId) × Tracker × σ × Host :=
  match t with
  | .idle => (.ok none, .idle, store, h)
  | .sampled t =>
    let (result, t, store, h) := t.evict store h
    (result.map some, .sampled t, store, h)
  | .queued t =>
    let (result, t, store) := t.evict store
    (result.map some, .queued t, store, h)

end Tracker

end PageRegions
