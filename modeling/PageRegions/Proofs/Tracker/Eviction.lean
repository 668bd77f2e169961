import PageRegions.Proofs.Tracker.Queued
import PageRegions.Proofs.Tracker.Sampled
import PageRegions.Tracker.Tracker

/-!
# What a tracker evicts

All trackers but the idle one evict in the same way: what comes of it is an `Eviction`. The idle
tracker is left out. It evicts nothing and says that it succeeded.
-/

set_option autoImplicit false

namespace PageRegions

/-! ## Sampled trackers -/

namespace SampledTracker

variable {σ : Type} [RowStore σ]

theorem forget_started (t : SampledTracker) (s : σ) (page : PageId) :
    (t.forget s page).started = t.started := by
  unfold forget
  split
  · rfl
  · exact remove_started

theorem forget_recency (t : SampledTracker) (s : σ) (page : PageId) :
    (t.forget s page).recency = t.recency := by
  unfold forget
  split
  · rfl
  · exact remove_recency

/-- Only a page without rows is forgotten. -/
theorem Coherent.forget {t : SampledTracker} (ht : t.Coherent) (s : σ) (page : PageId) :
    (t.forget s page).Coherent ∧ ∀ x, x ∈ (t.forget s page).pages
      ↔ x ∈ t.pages ∧ (x = page → RowStore.holdsRows s page = true) := by
  unfold SampledTracker.forget
  by_cases hholds : RowStore.holdsRows s page = true
  · rw [if_pos hholds]
    exact ⟨ht, fun x => ⟨fun hx => ⟨hx, fun _ => hholds⟩, And.left⟩⟩
  · rw [if_neg hholds]
    obtain ⟨hc, hmem⟩ := ht.remove page
    refine ⟨hc, fun x => (hmem x).trans (and_congr_right fun _ => ?_)⟩
    exact ⟨fun hne he => absurd he hne, fun h he => hholds (h he)⟩

/-- Whatever is evicted, the host is changed in nothing but the count of lots. -/
theorem evictWithin_host (n : Nat) (t : SampledTracker) (s : σ) (h : Host) :
    ∃ drawn, (evictWithin n t s h).2.2.2 = { h with drawn := drawn } := by
  induction n generalizing t s h with
  | zero => exact ⟨h.drawn, rfl⟩
  | succ n ih =>
    unfold evictWithin
    rcases t.pick_cases h with ⟨-, hpick⟩ | ⟨victim, drawn, -, hpick⟩ <;> rw [hpick]
    · exact ⟨h.drawn, rfl⟩
    · rcases hdrop : RowStore.dropRows s victim with ⟨fault | _, s'⟩ <;> simp only [hdrop]
      · split
        · exact ih (t.remove victim) s' { h with drawn := drawn }
        · exact ⟨drawn, rfl⟩
      · exact ⟨drawn, rfl⟩

variable [LawfulRowStore σ]

theorem evictWithin_eviction (n : Nat) (t : SampledTracker) (ht : t.Coherent) (s : σ) (h : Host) :
    ∃ result u s' drawn, evictWithin n t s h = (result, u, s', { h with drawn := drawn })
      ∧ u.Coherent ∧ u.started = t.started ∧ u.recency = t.recency
      ∧ Eviction n s t.pages result u.pages s' := by
  induction n generalizing t h with
  | zero =>
    exact ⟨_, t, s, h.drawn, rfl, ht, rfl, rfl,
      .refused _ [] t.pages rfl nofun (List.Perm.refl _) (Or.inr (Nat.le_refl 0))⟩
  | succ n ih =>
    unfold evictWithin
    rcases t.pick_cases h with ⟨hnone, hpick⟩ | ⟨victim, drawn, hmem, hpick⟩
    · rw [hpick]
      exact ⟨_, t, s, h.drawn, rfl, ht, rfl, rfl,
        .refused _ [] t.pages rfl nofun (List.Perm.refl _) (Or.inl hnone)⟩
    · obtain ⟨hcoherent, -⟩ := ht.remove victim
      have hperm := ht.perm_remove hmem
      rw [hpick]
      rcases dropRows_cases s victim with ⟨hholds, s', hdrop⟩ | ⟨hempty, fault, hkind, hdrop⟩
      · simp only [hdrop]
        exact ⟨.ok victim, t.remove victim, s', drawn, rfl, hcoherent, remove_started,
          remove_recency, .evicted victim [] _ s' hholds hdrop nofun hperm⟩
      · simp only [hdrop, hkind, if_true]
        obtain ⟨result, u, s', drawn', heq, hu, hstarted, hrecency, hev⟩ :=
          ih (t.remove victim) hcoherent { h with drawn := drawn }
        exact ⟨result, u, s', drawn', heq, hu, hstarted.trans remove_started,
          hrecency.trans remove_recency, hev.afterStale hempty hperm⟩

end SampledTracker

/-! ## All trackers -/

namespace Tracker

/-- The tracked pages. -/
def pages : Tracker → List PageId
  | .idle => []
  | .sampled t => t.pages
  | .queued t => t.queue

/-- Whether a tracker takes pages in. The idle one never does. -/
def started : Tracker → Bool
  | .idle => false
  | .sampled t => t.started
  | .queued t => t.started

/-- A tracker has a page once, and finds it where it is. -/
def Coherent : Tracker → Prop
  | .idle => True
  | .sampled t => t.Coherent
  | .queued t => t.Coherent

theorem Coherent.nodup {t : Tracker} (ht : t.Coherent) : t.pages.Nodup := by
  cases t with
  | idle => exact List.nodup_nil
  | sampled t => exact SampledTracker.Coherent.nodup ht
  | queued t => exact QueuedTracker.Coherent.nodup ht

theorem coherent_fresh (kind : TrackerKind) : (fresh kind).Coherent := by
  cases kind with
  | idle => trivial
  | lru | lru2 => exact SampledTracker.coherent_fresh _
  | fairQueue => exact QueuedTracker.coherent_fresh

theorem Coherent.start {t : Tracker} (ht : t.Coherent) : t.start.Coherent := by
  cases t with
  | idle => trivial
  | sampled t => exact ⟨ht.slot_of_record, ht.record_of_slot⟩
  | queued t => exact ⟨ht.place_of_index, ht.index_of_place, ht.ordered, ht.issued⟩

theorem coherent_stop (t : Tracker) : t.stop.Coherent := by
  cases t with
  | idle => trivial
  | sampled t => exact SampledTracker.coherent_fresh _
  | queued t => exact QueuedTracker.coherent_fresh

theorem Coherent.touch {t : Tracker} (ht : t.Coherent) (page : PageId) (now : UInt64) :
    (t.touch page now).Coherent := by
  cases t with
  | idle => trivial
  | sampled t => exact SampledTracker.Coherent.touch ht page now
  | queued t => exact QueuedTracker.Coherent.touch ht page

theorem Coherent.mem_touch {t : Tracker} (ht : t.Coherent) (hstarted : t.started = true)
    {page x : PageId} {now : UInt64} :
    x ∈ (t.touch page now).pages ↔ x = page ∨ x ∈ t.pages := by
  cases t with
  | idle => cases hstarted
  | sampled t => exact SampledTracker.mem_touch ht hstarted
  | queued t => exact QueuedTracker.Coherent.mem_touch ht hstarted

theorem Coherent.forget {σ : Type} [RowStore σ] {t : Tracker} (ht : t.Coherent) (s : σ)
    (page : PageId) :
    (t.forget s page).Coherent ∧ ∀ x, x ∈ (t.forget s page).pages
      ↔ x ∈ t.pages ∧ (x = page → RowStore.holdsRows s page = true) := by
  cases t with
  | idle => exact ⟨trivial, fun x => ⟨nofun, fun h => nomatch h.1⟩⟩
  | sampled t => exact SampledTracker.Coherent.forget ht s page
  | queued t => exact QueuedTracker.Coherent.forget ht s page

/-! What an operation leaves as it is. -/

theorem touch_kind (t : Tracker) (page : PageId) (now : UInt64) :
    (t.touch page now).kind = t.kind := by
  cases t with
  | idle => rfl
  | sampled t => simp only [touch, kind, SampledTracker.touch_recency]
  | queued t => rfl

theorem touch_started (t : Tracker) (page : PageId) (now : UInt64) :
    (t.touch page now).started = t.started := by
  cases t with
  | idle => rfl
  | sampled t => exact SampledTracker.touch_started
  | queued t => exact t.touch_started page

theorem forget_kind {σ : Type} [RowStore σ] (t : Tracker) (s : σ) (page : PageId) :
    (t.forget s page).kind = t.kind := by
  cases t with
  | idle => rfl
  | sampled t => simp only [forget, kind, SampledTracker.forget_recency]
  | queued t => rfl

theorem forget_started {σ : Type} [RowStore σ] (t : Tracker) (s : σ) (page : PageId) :
    (t.forget s page).started = t.started := by
  cases t with
  | idle => rfl
  | sampled t => exact t.forget_started s page
  | queued t => exact t.forget_started s page

theorem eq_idle {t : Tracker} (hkind : t.kind = .idle) : t = .idle := by
  cases t with
  | idle => rfl
  | sampled t =>
    unfold kind at hkind
    cases hrec : t.recency <;> simp [hrec] at hkind
  | queued t => cases hkind

theorem evict_host {σ : Type} [RowStore σ] (t : Tracker) (s : σ) (h : Host) :
    ∃ drawn, (t.evict s h).2.2.2 = { h with drawn := drawn } := by
  cases t with
  | idle => exact ⟨h.drawn, rfl⟩
  | sampled t => exact SampledTracker.evictWithin_host SampledTracker.attemptLimit t s h
  | queued t => exact ⟨h.drawn, rfl⟩

/-- **All trackers but the idle one evict alike.** -/
theorem Coherent.evict {σ : Type} [RowStore σ] [LawfulRowStore σ] {t : Tracker} (ht : t.Coherent)
    (hkind : t.kind ≠ .idle) (s : σ) (h : Host) :
    ∃ result u s' drawn,
      t.evict s h = (Except.map some result, u, s', { h with drawn := drawn })
      ∧ u.Coherent ∧ u.started = t.started ∧ u.kind = t.kind
      ∧ Eviction SampledTracker.attemptLimit s t.pages result u.pages s' := by
  cases t with
  | idle => exact absurd rfl hkind
  | sampled t =>
    obtain ⟨result, u, s', drawn, heq, hu, hstarted, hrecency, hev⟩ :=
      SampledTracker.evictWithin_eviction SampledTracker.attemptLimit t ht s h
    refine ⟨result, .sampled u, s', drawn, ?_, hu, hstarted, ?_, hev⟩
    · simp only [Tracker.evict, SampledTracker.evict, heq]
    · simp only [kind, hrecency]
  | queued t =>
    have hev := QueuedTracker.Coherent.evict ht s
    rcases heq : t.evict s with ⟨result, u, s'⟩
    rw [heq] at hev
    refine ⟨result, .queued u, s', h.drawn, ?_, hev.coherent.1, hev.coherent.2, rfl,
      hev.eviction _⟩
    simp only [Tracker.evict, heq]

end Tracker
end PageRegions
