import Std.Data.TreeMap
import PageRegions.Tracker.RowStore

/-!
# The fair queue

Pages are evicted in the order in which they were first touched. Touching a page again does not
move it. The page at the head leaves the queue before the store is asked to drop it, so one that
turns out to hold no rows is gone, and so is one whose eviction fails.

A page that is forgotten may stand anywhere. It is not searched for: each place in the queue has a
ticket with a number of its own, and an index knows the tickets of the pages.
-/

set_option autoImplicit false

namespace PageRegions

/-- A place in the queue: its ticket, and the page that stands there. -/
structure QueuePlace where
  ticket : Nat
  page : PageId
  deriving DecidableEq, Repr

structure QueuedTracker where
  started : Bool
  /-- The places, that of the page first touched first. -/
  places : List QueuePlace
  /-- The ticket of each page that has one. -/
  index : Std.TreeMap PageId Nat
  /-- The ticket of the next place. -/
  nextTicket : Nat

namespace QueuedTracker

def fresh : QueuedTracker := ⟨false, [], ∅, 0⟩

/-- The pages, the first touched first. -/
def queue (t : QueuedTracker) : List PageId := t.places.map (·.page)

def start (t : QueuedTracker) : QueuedTracker := { t with started := true }

/-- Loses all pages, and takes none in. -/
def stop (_ : QueuedTracker) : QueuedTracker := fresh

/-- Puts a page at the end of the queue unless it is in it. -/
def touch (t : QueuedTracker) (page : PageId) : QueuedTracker :=
  if !t.started ∨ page ∈ t.index then t
  else
    { t with
      places := t.places ++ [⟨t.nextTicket, page⟩]
      index := t.index.insert page t.nextTicket
      nextTicket := t.nextTicket + 1 }

/-- The queue without a page: the places that are left are given. -/
def vacate (t : QueuedTracker) (page : PageId) (places : List QueuePlace) : QueuedTracker :=
  { t with places := places, index := t.index.erase page }

/-- Takes out the place that a page has the ticket of. -/
def remove (t : QueuedTracker) (page : PageId) : QueuedTracker :=
  match t.index[page]? with
  | none => t
  | some ticket => t.vacate page (t.places.eraseP fun place => place.ticket = ticket)

/-- Takes a page out of the queue unless it holds rows. -/
def forget {σ : Type} [RowStore σ] (t : QueuedTracker) (store : σ) (page : PageId) :
    QueuedTracker :=
  if RowStore.holdsRows store page then t else t.remove page

/-- Evicts the first page, of those at the given places, that the store does not deny to hold rows.
These are all places of the queue. -/
def evictFirst {σ : Type} [RowStore σ] :
    List QueuePlace → QueuedTracker → σ → Except Fault PageId × QueuedTracker × σ
  | [], t, store => (.error .nothingTracked, t, store)
  | place :: more, t, store =>
    let t := t.vacate place.page more
    match RowStore.dropRows store place.page with
    | (.ok (), store) => (.ok place.page, t, store)
    | (.error fault, store) =>
      if fault.kind = .notFound then evictFirst more t store else (.error fault, t, store)

def evict {σ : Type} [RowStore σ] (t : QueuedTracker) (store : σ) :
    Except Fault PageId × QueuedTracker × σ :=
  evictFirst t.places t store

end QueuedTracker

end PageRegions
