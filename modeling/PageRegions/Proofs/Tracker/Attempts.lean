import PageRegions.Proofs.Tracker.Eviction

/-!
# Trackers in steps

A tracker does what it is asked in one go, but the store that it evicts from does not stand still
meanwhile: rows come and go while a tracker is about to ask for them. So where others use the store,
too, an operation has to be taken apart at the points where the store is asked.

Forgetting a page is to ask whether it holds rows, and then to take it out (`unlist`). Evicting is a
sequence of attempts (`Attempts`): a page is chosen (`choose`), the store is asked to drop its rows,
and then the page is taken out (`settle`). In that the trackers differ. A sampled tracker has its
victim until the rows are gone; the queue has given it up before it asks.
-/

set_option autoImplicit false

namespace PageRegions
namespace Tracker

/-- Takes a page out. -/
def unlist (t : Tracker) (page : PageId) : Tracker :=
  match t with
  | .idle => .idle
  | .sampled t => .sampled (t.remove page)
  | .queued t => .queued (t.remove page)

/-- The victim of an attempt, if there is any. The queue gives it up at once. -/
def choose (t : Tracker) (h : Host) : Option PageId × Tracker × Host :=
  match t with
  | .idle => (none, .idle, h)
  | .sampled t =>
    let (victim?, h) := t.pick h
    (victim?, .sampled t, h)
  | .queued t =>
    match t.places with
    | [] => (none, .queued t, h)
    | place :: more => (some place.page, .queued (t.vacate place.page more), h)

/-- Takes out a victim whose rows are gone, unless that was done when it was chosen. -/
def settle (t : Tracker) (victim : PageId) : Tracker :=
  match t with
  | .idle => .idle
  | .sampled t => .sampled (t.remove victim)
  | .queued t => .queued t

/-- Forgetting is taking out what holds no rows. -/
theorem forget_eq {σ : Type} [RowStore σ] (t : Tracker) (s : σ) (page : PageId) :
    t.forget s page = if RowStore.holdsRows s page then t else t.unlist page := by
  cases t with
  | idle => simp [forget, unlist]
  | sampled t =>
    simp only [forget, SampledTracker.forget, unlist]
    split <;> rfl
  | queued t =>
    simp only [forget, QueuedTracker.forget, unlist]
    split <;> rfl

/-! ## What a step loses -/

/-- A tracker that has lost no page but one, if that. -/
structure Without (t : Tracker) (page : PageId) (u : Tracker) : Prop where
  coherent : u.Coherent
  started : u.started = t.started
  kept : ∀ x ∈ t.pages, x ≠ page → x ∈ u.pages

theorem Without.refl {t : Tracker} (ht : t.Coherent) (page : PageId) : Without t page t where
  coherent := ht
  started := rfl
  kept _ hx _ := hx

variable {t : Tracker}

theorem Without.remove {t : SampledTracker} (ht : t.Coherent) (page : PageId) :
    Without (.sampled t) page (.sampled (t.remove page)) := by
  obtain ⟨hcoherent, hmem⟩ := ht.remove page
  exact {
    coherent := hcoherent
    started := SampledTracker.remove_started
    kept := fun x hx hne => (hmem x).mpr ⟨hx, hne⟩ }

theorem Coherent.unlist (ht : t.Coherent) (page : PageId) : Without t page (t.unlist page) := by
  cases t with
  | idle => exact .refl ht page
  | sampled t => exact .remove ht page
  | queued t =>
    exact {
      coherent := QueuedTracker.Coherent.remove ht page
      started := t.remove_started page
      kept := fun x hx hne => (QueuedTracker.Coherent.mem_remove ht).mpr ⟨hx, hne⟩ }

theorem Coherent.settle (ht : t.Coherent) (victim : PageId) :
    Without t victim (t.settle victim) := by
  cases t with
  | idle => exact .refl ht victim
  | sampled t => exact .remove ht victim
  | queued t => exact .refl ht victim

theorem Coherent.choose (ht : t.Coherent) {h : Host} {victim : PageId}
    (hchosen : (t.choose h).1 = some victim) : Without t victim (t.choose h).2.1 := by
  cases t with
  | idle => cases hchosen
  | sampled t => exact .refl ht victim
  | queued t =>
    unfold Tracker.choose at hchosen ⊢
    cases hplaces : t.places with
    | nil =>
      simp only [hplaces] at hchosen
      cases hchosen
    | cons first more =>
      simp only [hplaces] at hchosen ⊢
      have hfirst : first.page = victim := Option.some.inj hchosen
      refine ⟨QueuedTracker.Coherent.vacate_head ht hplaces, rfl, fun x hx hne => ?_⟩
      have hmem : x ∈ t.places.map (·.page) := hx
      rw [hplaces, List.map_cons, hfirst, List.mem_cons] at hmem
      exact hmem.resolve_left hne

/-! ## Evicting, attempt by attempt -/

/-- What attempts come to. How many there are is left open: a tracker may give up at any time. -/
inductive Attempts {σ : Type} [RowStore σ] :
    Tracker → σ → Host → Except Fault PageId → Tracker → σ → Host → Prop
  | givenUp (fault : Fault) (t : Tracker) (s : σ) (h : Host) :
      Attempts t s h (.error fault) t s h
  | evicted {t u : Tracker} {s s' : σ} {h k : Host} {victim : PageId}
      (chosen : t.choose h = (some victim, u, k))
      (dropped : RowStore.dropRows s victim = (.ok (), s')) :
      Attempts t s h (.ok victim) (u.settle victim) s' k
  | failed {t u : Tracker} {s s' : σ} {h k : Host} {victim : PageId} {fault : Fault}
      (chosen : t.choose h = (some victim, u, k))
      (dropped : RowStore.dropRows s victim = (.error fault, s')) (other : fault.kind ≠ .notFound) :
      Attempts t s h (.error fault) u s' k
  | again {t u t' : Tracker} {s s' s'' : σ} {h k k' : Host} {victim : PageId} {fault : Fault}
      {result : Except Fault PageId} (chosen : t.choose h = (some victim, u, k))
      (dropped : RowStore.dropRows s victim = (.error fault, s')) (absent : fault.kind = .notFound)
      (more : Attempts (u.settle victim) s' k result t' s'' k') :
      Attempts t s h result t' s'' k'

variable {σ : Type} [RowStore σ]

theorem evictWithin_attempts (n : Nat) (t : SampledTracker) (s : σ) (h : Host) :
    ∃ result u s' k, t.evictWithin n s h = (result, u, s', k)
      ∧ Attempts (.sampled t) s h result (.sampled u) s' k := by
  induction n generalizing t s h with
  | zero => exact ⟨_, t, s, h, rfl, .givenUp _ _ _ _⟩
  | succ n ih =>
    unfold SampledTracker.evictWithin
    rcases t.pick_cases h with ⟨-, hpick⟩ | ⟨victim, drawn, -, hpick⟩
    · rw [hpick]
      exact ⟨_, t, s, h, rfl, .givenUp _ _ _ _⟩
    · have hchosen : (Tracker.sampled t).choose h
          = (some victim, .sampled t, { h with drawn := drawn }) := by
        simp only [choose, hpick]
      simp only [hpick]
      rcases hdrop : RowStore.dropRows s victim with ⟨fault | _, s'⟩
      · by_cases habsent : fault.kind = .notFound
        · obtain ⟨result, u, s'', k', heq, hmore⟩ := ih (t.remove victim) s' { h with drawn := drawn }
          simp only [habsent, if_true]
          exact ⟨result, u, s'', k', heq, .again hchosen hdrop habsent hmore⟩
        · simp only [habsent, if_false]
          exact ⟨_, t, s', _, rfl, .failed hchosen hdrop habsent⟩
      · exact ⟨_, t.remove victim, s', _, rfl, .evicted hchosen hdrop⟩

theorem evictFirst_attempts (t : QueuedTracker) (s : σ) (h : Host) :
    ∃ result u s', QueuedTracker.evictFirst t.places t s = (result, u, s')
      ∧ Attempts (.queued t) s h result (.queued u) s' h := by
  generalize hplaces : t.places = places
  induction places generalizing t s with
  | nil => exact ⟨_, t, s, rfl, .givenUp _ _ _ _⟩
  | cons place more ih =>
    have hchosen : (Tracker.queued t).choose h
        = (some place.page, .queued (t.vacate place.page more), h) := by
      simp only [choose, hplaces]
    unfold QueuedTracker.evictFirst
    rcases hdrop : RowStore.dropRows s place.page with ⟨fault | _, s'⟩
    · by_cases habsent : fault.kind = .notFound
      · obtain ⟨result, u, s'', heq, hmore⟩ := ih (t.vacate place.page more) s' rfl
        simp only [habsent, if_true]
        exact ⟨result, u, s'', heq, .again hchosen hdrop habsent hmore⟩
      · simp only [habsent, if_false]
        exact ⟨_, t.vacate place.page more, s', rfl, .failed hchosen hdrop habsent⟩
    · exact ⟨_, t.vacate place.page more, s', rfl, .evicted hchosen hdrop⟩

/-- **Evicting is a sequence of attempts**, for all trackers but the idle one. -/
theorem evict_attempts {t : Tracker} (hkind : t.kind ≠ .idle) (s : σ) (h : Host) :
    ∃ result u s' k, t.evict s h = (Except.map some result, u, s', k)
      ∧ Attempts t s h result u s' k := by
  cases t with
  | idle => exact absurd rfl hkind
  | sampled t =>
    obtain ⟨result, u, s', k, heq, hattempts⟩ :=
      evictWithin_attempts SampledTracker.attemptLimit t s h
    refine ⟨result, .sampled u, s', k, ?_, hattempts⟩
    simp only [evict, SampledTracker.evict, heq]
  | queued t =>
    obtain ⟨result, u, s', heq, hattempts⟩ := evictFirst_attempts t s h
    refine ⟨result, .queued u, s', h, ?_, hattempts⟩
    simp only [evict, QueuedTracker.evict, heq]

end Tracker
end PageRegions
