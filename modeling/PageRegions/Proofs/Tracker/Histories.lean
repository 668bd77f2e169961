import PageRegions.Proofs.Tracker.Eviction

/-!
# Histories of trackers

A history is a list of calls, each with the store as it is when the call is made. From one call to
the next the store may have changed in any way: rows come and go without a tracker being asked. So
in a history every call has a store of its own, and nothing relates it to the one before.

The same calls are made of sampled trackers and of the queue. A sampled tracker asks the host for
lots; which ones it gets, is the host's choice, and a history leaves that open too.
-/

set_option autoImplicit false

namespace PageRegions

/-- What a tracker may be asked. -/
inductive TrackerCall (σ : Type) where
  | start
  | stop
  | touch (page : PageId) (now : UInt64)
  | forget (store : σ) (page : PageId)
  | evict (store : σ) (host : Host)

namespace SampledTracker

variable {σ : Type} [RowStore σ]

def perform (t : SampledTracker) : TrackerCall σ → SampledTracker
  | .start => t.start
  | .stop => t.stop
  | .touch page now => t.touch page now
  | .forget store page => t.forget store page
  | .evict store host => (t.evict store host).2.1

/-- The tracker after a history. -/
def after (t : SampledTracker) (calls : List (TrackerCall σ)) : SampledTracker :=
  calls.foldl perform t

variable [LawfulRowStore σ] {t : SampledTracker}

/-- Every call keeps slots and records together. -/
theorem Coherent.perform (ht : t.Coherent) (call : TrackerCall σ) :
    (t.perform call).Coherent := by
  cases call with
  | start => exact ⟨ht.slot_of_record, ht.record_of_slot⟩
  | stop => exact coherent_fresh t.recency
  | touch page now => exact ht.touch page now
  | forget store page => exact (ht.forget store page).1
  | evict store host =>
    obtain ⟨_, _, _, _, heq, hu, -⟩ := evictWithin_eviction attemptLimit t ht store host
    simp only [SampledTracker.perform, evict, heq]
    exact hu

theorem Coherent.after (ht : t.Coherent) (calls : List (TrackerCall σ)) :
    (t.after calls).Coherent := by
  induction calls generalizing t with
  | nil => exact ht
  | cons call more ih => exact ih (ht.perform call)

theorem coherent_after (recency : Recency) (calls : List (TrackerCall σ)) :
    ((fresh recency).after calls).Coherent :=
  (coherent_fresh recency).after calls

end SampledTracker

namespace QueuedTracker

variable {σ : Type} [RowStore σ]

def perform (t : QueuedTracker) : TrackerCall σ → QueuedTracker
  | .start => t.start
  | .stop => t.stop
  | .touch page _ => t.touch page
  | .forget store page => t.forget store page
  | .evict store _ => (t.evict store).2.1

/-- The queue after a history. -/
def after (t : QueuedTracker) (calls : List (TrackerCall σ)) : QueuedTracker :=
  calls.foldl perform t

variable [LawfulRowStore σ] {t : QueuedTracker}

/-- Every call keeps places and index together. -/
theorem Coherent.perform (ht : t.Coherent) (call : TrackerCall σ) : (t.perform call).Coherent := by
  cases call with
  | start => exact ⟨ht.place_of_index, ht.index_of_place, ht.ordered, ht.issued⟩
  | stop => exact coherent_fresh
  | touch page now => exact ht.touch page
  | forget store page => exact (ht.forget store page).1
  | evict store host => exact (ht.evict store).coherent.1

end QueuedTracker
end PageRegions
