import Mathlib.Data.List.TakeWhile
import PageRegions.Proofs.Region.Eviction
import PageRegions.Proofs.Tracker.Histories

/-!
# First come, first evicted

`PageQueue` says what a fair queue is, with no ticket and no index: a list of pages, and what each
call does to it. The tracker behaves like that list under any calls in any order (`fair_queue`), and
whatever happens to the free list between two calls. Evicting looks for the first page of the list
that holds rows. The pages before it are gone, and if there is none, all of them.
-/

set_option autoImplicit false

namespace PageRegions

/-- A queue of pages, by its rules alone. -/
structure PageQueue where
  started : Bool
  pages : List PageId

namespace PageQueue

def empty : PageQueue := ⟨false, []⟩

/-- A page comes in at the end unless it is there already. It leaves when it is forgotten, but not
while it holds rows, and when it is evicted or passed over. -/
def perform (q : PageQueue) : TrackerCall FreeList → PageQueue
  | .start => { q with started := true }
  | .stop => empty
  | .touch page _ =>
    if q.started = true ∧ page ∉ q.pages then { q with pages := q.pages ++ [page] } else q
  | .forget f page => if f.holds page = true then q else { q with pages := q.pages.erase page }
  | .evict f _ => { q with pages := (q.pages.dropWhile fun x => !f.holds x).tail }

def after (q : PageQueue) (calls : List (TrackerCall FreeList)) : PageQueue :=
  calls.foldl perform q

end PageQueue

namespace QueuedTracker

/-- A tracker that has the pages of a queue, in their order. -/
structure Shows (t : QueuedTracker) (q : PageQueue) : Prop where
  coherent : t.Coherent
  started : t.started = q.started
  queue : t.queue = q.pages

variable {t : QueuedTracker} {q : PageQueue}

/-- What evicting leaves is what stands behind the first page that holds rows. -/
theorem HeadEviction.queue_left {f f' : FreeList} {result : Except Fault PageId}
    {u : QueuedTracker} (h : HeadEviction t f (result, u, f')) :
    u.queue = (t.queue.dropWhile fun x => !f.holds x).tail := by
  cases h with
  | evicted stale victim u queue empty holds _ _ =>
    have hstale : ∀ x ∈ stale, (!f.holds x) = true := by
      intro x hx
      rw [Bool.not_eq_true']
      exact empty x hx
    have hvictim : f.holds victim = true := holds
    rw [queue, List.dropWhile_append_of_pos hstale, List.dropWhile_cons_of_neg (by simp [hvictim]),
      List.tail_cons]
  | refused u empty none _ _ =>
    have hall : ∀ x ∈ t.queue, (!f.holds x) = true := by
      intro x hx
      rw [Bool.not_eq_true']
      exact empty x hx
    rw [List.dropWhile_eq_nil_iff.mpr hall, none, List.tail_nil]

/-- Each call does to the tracker what it does to the queue. -/
theorem Shows.perform (h : t.Shows q) (call : TrackerCall FreeList) :
    (t.perform call).Shows (q.perform call) := by
  refine ⟨h.coherent.perform call, ?_, ?_⟩
  · cases call with
    | start => rfl
    | stop => rfl
    | touch page now =>
      simp only [QueuedTracker.perform, PageQueue.perform, touch_started, h.started]
      split <;> rfl
    | forget f page =>
      simp only [QueuedTracker.perform, PageQueue.perform, forget_started, h.started]
      split <;> rfl
    | evict f host => exact (h.coherent.evict f).coherent.2.trans h.started
  · cases call with
    | start => exact h.queue
    | stop => rfl
    | touch page now =>
      simp only [QueuedTracker.perform, PageQueue.perform, h.coherent.queue_touch, h.queue,
        h.started]
      split <;> rfl
    | forget f page =>
      simp only [QueuedTracker.perform, PageQueue.perform, h.coherent.queue_forget, h.queue]
      change (if f.holds page = true then _ else _) = _
      split <;> rfl
    | evict f host =>
      have hleft := (h.coherent.evict f).queue_left
      rw [h.queue] at hleft
      exact hleft

theorem Shows.after (h : t.Shows q) (calls : List (TrackerCall FreeList)) :
    (t.after calls).Shows (q.after calls) := by
  induction calls generalizing t q with
  | nil => exact h
  | cons call more ih => exact ih (h.perform call)

end QueuedTracker
end PageRegions
