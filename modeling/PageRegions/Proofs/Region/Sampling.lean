import PageRegions.Proofs.Metrics.SlidingCount
import PageRegions.Proofs.Region.Eviction
import PageRegions.Proofs.Tracker.Histories

/-!
# Evicting by lot

A sampled tracker draws its candidates by lot, and the lots are the host's choice. What follows here
holds for all of them: each attempt draws a few lots at most and gives up at most one slot
(`evictWithin_effort`), so an eviction comes to an end, and it can fail in two ways only. Either
nothing that is tracked holds rows, or all attempts went to pages that hold none.

The metrics belong to the region, so the outcome is stated of a region (`LotEviction`). Its tracker
may have any history, and its free list need not have any part in that. A page that is evicted is
counted once and in one window (`EvictionCounted`), one that is not leaves the metrics alone.
-/

set_option autoImplicit false

namespace PageRegions
namespace SampledTracker

/-! ## What an eviction costs -/

theorem pages_length_le_remove (t : SampledTracker) (page : PageId) :
    t.pages.length ≤ (t.remove page).pages.length + 1 := by
  unfold remove
  split
  · simp only [pages, Array.length_toList, Array.size_pop, Array.size_setIfInBounds]
    omega
  · exact Nat.le_succ _

theorem pick_drawn_le (t : SampledTracker) (h : Host) :
    (t.pick h).2.drawn ≤ h.drawn + sampleSize := by
  unfold pick
  by_cases hsmall : t.slots.size ≤ sampleSize
  · rw [if_pos hsmall]
    exact Nat.le_add_right _ _
  · have hpos : 0 < t.slots.size := Nat.zero_lt_of_lt (Nat.lt_of_not_le hsmall)
    rw [if_neg hsmall]
    simp only [(drawPages_spec hpos sampleSize h).2.2, Nat.le_refl]

/-- With `n` attempts left, up to `n` pages leave, and a few lots are drawn for each. -/
theorem evictWithin_effort {σ : Type} [RowStore σ] (n : Nat) (t : SampledTracker) (s : σ)
    (h : Host) :
    t.pages.length ≤ (evictWithin n t s h).2.1.pages.length + n
      ∧ (evictWithin n t s h).2.2.2.drawn ≤ h.drawn + sampleSize * n := by
  induction n generalizing t s h with
  | zero => exact ⟨Nat.le_refl _, Nat.le_refl _⟩
  | succ n ih =>
    have hpicked := t.pick_drawn_le h
    rw [Nat.mul_succ]
    unfold evictWithin
    rcases hpick : t.pick h with ⟨_ | victim, k⟩
    all_goals
      rw [hpick] at hpicked
      replace hpicked : k.drawn ≤ h.drawn + sampleSize := hpicked
    · exact ⟨Nat.le_add_right _ _, by simp only; omega⟩
    have hslot := t.pages_length_le_remove victim
    rcases hdrop : RowStore.dropRows s victim with ⟨fault | _, s'⟩ <;> simp only [hdrop]
    · by_cases habsent : fault.kind = .notFound
      · obtain ⟨hleft, hlots⟩ := ih (t.remove victim) s' k
        rw [if_pos habsent]
        exact ⟨by omega, by omega⟩
      · rw [if_neg habsent]
        exact ⟨Nat.le_add_right _ _, by simp only; omega⟩
    · exact ⟨by omega, by omega⟩

end SampledTracker

/-! ## Counting an eviction -/

/-- Metrics `counted` are those that were, with one eviction more at the time `now`. -/
structure RegionMetrics.EvictionCounted (m : RegionMetrics) (now : UInt64)
    (counted : RegionMetrics) : Prop where
  /-- While counting is switched off nothing is counted. -/
  disabled : m.enabled = false → counted = m
  /-- The window of evictions is hit once, and that is all. -/
  enabled : m.enabled = true → counted = { m with eviction := m.eviction.hit now 1 }
  /-- So at that time its sum is one more than without. -/
  sum : m.enabled = true → 0 < m.eviction.buckets.size →
    counted.eviction.sum = (m.eviction.current now).sum + 1

theorem RegionMetrics.countEviction_counted (m : RegionMetrics) (now : UInt64) :
    m.EvictionCounted now (m.countEviction now) where
  disabled hoff := by
    unfold countEviction
    rw [hoff, if_neg Bool.false_ne_true]
  enabled hon := if_pos hon
  sum hon hsize := by
    rw [countEviction, if_pos hon]
    exact RateWindow.sum_hit hsize now 1

/-! ## Regions -/

namespace Region

open SampledTracker

/-- What evicting a page by lot ends in, for a region whose tracker is `t`. Memory is not
involved. -/
inductive LotEviction (r : Region) (t : SampledTracker) (h : Host) :
    Except Fault Unit × Region × Host → Prop
  /-- A tracked page loses its rows, and that is counted. -/
  | evicted (victim : PageId) (dropped : List PageId) (u : SampledTracker) (f : FreeList)
      (metrics : RegionMetrics) (drawn : Nat) (tracked : victim ∈ t.pages)
      (holds : r.freeList.holds victim = true)
      (evict : r.freeList.evict victim = (.ok (), f))
      (others : ∀ x, f.holds x = (decide (x ≠ victim) && r.freeList.holds x))
      (empty : ∀ x ∈ dropped, r.freeList.holds x = false)
      (perm : t.pages.Perm (victim :: (dropped ++ u.pages)))
      (counted : r.store.metrics.EvictionCounted h.now metrics)
      (coherent : u.Coherent) (lots : drawn ≤ h.drawn + sampleSize * attemptLimit) :
      LotEviction r t h (.ok (),
        { r with
          tracker := .sampled u
          freeList := f
          store := { r.store with metrics := metrics } },
        { h with drawn := drawn })
  /-- No tracked page holds rows, or all attempts went to pages that hold none. -/
  | refused (fault : Fault) (dropped : List PageId) (u : SampledTracker) (drawn : Nat)
      (kind : fault.kind = .aborted)
      (why : (∀ x ∈ t.pages, r.freeList.holds x = false) ∨ dropped.length = attemptLimit)
      (empty : ∀ x ∈ dropped, r.freeList.holds x = false)
      (perm : t.pages.Perm (dropped ++ u.pages))
      (coherent : u.Coherent) (lots : drawn ≤ h.drawn + sampleSize * attemptLimit) :
      LotEviction r t h (.error fault, { r with tracker := .sampled u }, { h with drawn := drawn })

/-- **Evicting by lot is safe.** After any calls, with any free list and any lots, slots and records
of a sampled tracker belong together, and a region evicts one page that it tracks and that holds
rows, or none. Whatever else its tracker gives up holds no rows. -/
theorem evictPage_by_lot (recency : Recency) (calls : List (TrackerCall FreeList)) (r : Region)
    (h : Host) :
    let t := (SampledTracker.fresh recency).after calls
    (t.Coherent ∧ t.pages.Nodup ∧ ∀ page, page ∈ t.records ↔ page ∈ t.pages)
      ∧ LotEviction r t h ({ r with tracker := .sampled t }.evictPage h) := by
  intro t
  have ht : t.Coherent := coherent_after recency calls
  refine ⟨⟨ht, ht.nodup, fun page => ?_⟩, ?_⟩
  · rw [ht.mem_pages, Std.HashMap.mem_iff_isSome_getElem?, Option.isSome_iff_exists]
  obtain ⟨result, u, f, drawn, heq, hu, -, -, hev⟩ :=
    evictWithin_eviction attemptLimit t ht r.freeList h
  have heffort := evictWithin_effort attemptLimit t r.freeList h
  rw [heq] at heffort
  obtain ⟨hleft, hlots⟩ : t.pages.length ≤ u.pages.length + attemptLimit
    ∧ drawn ≤ h.drawn + sampleSize * attemptLimit := heffort
  simp only [Region.evictPage, Tracker.evict, SampledTracker.evict, heq]
  cases hev with
  | evicted victim dropped _ _ holds evict empty perm =>
    have hothers := LawfulRowStore.holds_drop r.freeList victim
    rw [evict] at hothers
    exact .evicted victim dropped u f _ drawn (perm.mem_iff.mpr List.mem_cons_self) holds evict
      (fun x => hothers x holds) empty perm (RegionMetrics.countEviction_counted _ _) hu hlots
  | refused fault dropped _ cause empty perm why =>
    refine .refused fault dropped u drawn (Fault.kind_of_deniesVictim cause) ?_ empty perm hu hlots
    rcases why with hnone | hlimit
    · rw [hnone, List.append_nil] at perm
      exact Or.inl fun x hx => empty x (perm.mem_iff.mp hx)
    · -- No more pages can have left than there were attempts.
      have hlength := perm.length_eq
      rw [List.length_append] at hlength
      exact Or.inr (Nat.le_antisymm (by omega) hlimit)

end Region
end PageRegions
