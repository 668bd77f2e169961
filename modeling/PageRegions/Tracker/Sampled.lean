import Std.Data.HashMap
import PageRegions.Host.Host
import PageRegions.Tracker.RowStore

/-!
# Sampled trackers

A sampled tracker remembers when each page was touched last, and the time before. Its victim is the
page with the smallest rank among a few that are drawn by lot, or among all pages if there are no
more of them. Two rules of rank are in use: the time of the latest touch, and the older one of the
latest two times, so that pages touched once go before pages touched twice.

The pages stand in slots without gaps, so that one can be drawn, and each page's record names its
slot. A page that leaves is replaced by the one in the last slot.
-/

set_option autoImplicit false

namespace PageRegions

/-- What is remembered of a tracked page. A time that is not known is 0. -/
structure TouchRecord where
  slot : Nat
  latest : UInt64
  previous : UInt64
  deriving DecidableEq, Repr, Inhabited

/-- Rules of rank. -/
inductive Recency where
  /-- The time of the latest touch. -/
  | latest
  /-- The older one of the latest two times. -/
  | secondLatest
  deriving DecidableEq, Repr

namespace Recency

/-- The record of a page that is touched now. -/
def touched (r : Recency) (record : TouchRecord) (now : UInt64) : TouchRecord :=
  match r with
  | .latest => { record with latest := now }
  | .secondLatest => { record with latest := now, previous := record.latest }

/-- The rank of a page. The smallest is evicted first. -/
def rank (r : Recency) (record : TouchRecord) : UInt64 :=
  match r with
  | .latest => record.latest
  | .secondLatest => if record.previous < record.latest then record.previous else record.latest

end Recency

structure SampledTracker where
  recency : Recency
  started : Bool
  slots : Array PageId
  records : Std.HashMap PageId TouchRecord

namespace SampledTracker

def sampleSize : Nat := 5

/-- How many victims may turn out to hold no rows before eviction is given up. -/
def attemptLimit : Nat := 5000

def fresh (recency : Recency) : SampledTracker := ⟨recency, false, #[], ∅⟩

def start (t : SampledTracker) : SampledTracker := { t with started := true }

/-- Loses all pages, and takes none in. -/
def stop (t : SampledTracker) : SampledTracker := fresh t.recency

def tracked (t : SampledTracker) : Nat := t.slots.size

def record (t : SampledTracker) (page : PageId) : TouchRecord := t.records.getD page ⟨0, 0, 0⟩

/-- Remembers that a page is touched. A page that is not tracked gets a slot. -/
def touch (t : SampledTracker) (page : PageId) (now : UInt64) : SampledTracker :=
  if !t.started then t
  else
    match t.records[page]? with
    | some record => { t with records := t.records.insert page (t.recency.touched record now) }
    | none =>
      { t with
        slots := t.slots.push page
        records := t.records.insert page (t.recency.touched ⟨t.slots.size, 0, 0⟩ now) }

def remove (t : SampledTracker) (page : PageId) : SampledTracker :=
  match t.records[page]?, t.slots.back? with
  | some record, some last =>
    { t with
      slots := (t.slots.setIfInBounds record.slot last).pop
      records :=
        (t.records.insert last { t.record last with slot := record.slot }).erase page }
  | _, _ => t

/-- Gives up the slot of a page unless it holds rows. -/
def forget {σ : Type} [RowStore σ] (t : SampledTracker) (store : σ) (page : PageId) :
    SampledTracker :=
  if RowStore.holdsRows store page then t else t.remove page

/-! ## Victims -/

/-- The first page with the smallest rank. -/
def leastOf (t : SampledTracker) : List PageId → Option PageId
  | [] => none
  | page :: more => some (more.foldl (fun best candidate =>
      if t.recency.rank (t.record candidate) < t.recency.rank (t.record best) then candidate
      else best) page)

/-- Draws pages by lot. A page may be drawn more than once. -/
def drawPages (t : SampledTracker) : Nat → Host → List PageId × Host
  | 0, h => ([], h)
  | n + 1, h =>
    let (i, h) := h.draw t.slots.size
    let (pages, h) := t.drawPages n h
    (t.slots.getD i default :: pages, h)

def pick (t : SampledTracker) (h : Host) : Option PageId × Host :=
  if t.slots.size ≤ sampleSize then (t.leastOf t.slots.toList, h)
  else
    let (pages, h) := t.drawPages sampleSize h
    (t.leastOf pages, h)

/-- Evicts a page, with the given number of attempts left. A victim that holds no rows is
forgotten. -/
def evictWithin {σ : Type} [RowStore σ] :
    Nat → SampledTracker → σ → Host → Except Fault PageId × SampledTracker × σ × Host
  | 0, t, store, h => (.error (.evictionAttemptsUsedUp attemptLimit), t, store, h)
  | n + 1, t, store, h =>
    match t.pick h with
    | (none, h) => (.error .nothingTracked, t, store, h)
    | (some victim, h) =>
      match RowStore.dropRows store victim with
      | (.ok (), store) => (.ok victim, t.remove victim, store, h)
      | (.error fault, store) =>
        if fault.kind = .notFound then evictWithin n (t.remove victim) store h
        else (.error fault, t, store, h)

def evict {σ : Type} [RowStore σ] (t : SampledTracker) (store : σ) (h : Host) :
    Except Fault PageId × SampledTracker × σ × Host :=
  evictWithin attemptLimit t store h

end SampledTracker

end PageRegions
