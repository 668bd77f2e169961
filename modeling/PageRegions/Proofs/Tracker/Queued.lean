import Mathlib.Data.List.Nodup
import PageRegions.Proofs.Tracker.Outcomes
import PageRegions.Tracker.Queued

/-!
# The places and the index of the fair queue

The fair queue keeps its pages twice: at places, in order, and as the keys of an index, so that a
page can be taken out wherever it stands. `Coherent` says that the places and the index point at each
other, and that tickets grow from place to place. From that it follows that no page stands at two
places, and that each operation does to the list of pages (`queue`) what it would do to a plain list:
a page is put at the end, or erased, or the head is dropped.

The ticket of a page is all that the index knows, and the place is found by its ticket alone. So it
matters that a ticket is never given out again (`issued`).
-/

set_option autoImplicit false

namespace PageRegions
namespace QueuedTracker

/-- The places and the index point at each other. -/
structure Coherent (t : QueuedTracker) : Prop where
  place_of_index : ∀ (page : PageId) (ticket : Nat), t.index[page]? = some ticket →
    ⟨ticket, page⟩ ∈ t.places
  index_of_place : ∀ place ∈ t.places, t.index[place.page]? = some place.ticket
  ordered : t.places.Pairwise fun p q => p.ticket < q.ticket
  issued : ∀ place ∈ t.places, place.ticket < t.nextTicket

theorem coherent_fresh : fresh.Coherent where
  place_of_index page ticket h := by simp [fresh] at h
  index_of_place := nofun
  ordered := .nil
  issued := nofun

variable {t : QueuedTracker} {page x : PageId}

/-! ## One place for each page -/

theorem getElem?_index_insert (index : Std.TreeMap PageId Nat) (page x : PageId) (ticket : Nat) :
    (index.insert page ticket)[x]? = if page = x then some ticket else index[x]? := by
  simp only [Std.TreeMap.getElem?_insert, Std.LawfulEqCmp.compare_eq_iff_eq]

theorem getElem?_index_erase (index : Std.TreeMap PageId Nat) (page x : PageId) :
    (index.erase page)[x]? = if page = x then none else index[x]? := by
  simp only [Std.TreeMap.getElem?_erase, Std.LawfulEqCmp.compare_eq_iff_eq]

theorem Coherent.mem_queue (ht : t.Coherent) : page ∈ t.queue ↔ page ∈ t.index := by
  rw [Std.TreeMap.mem_iff_isSome_getElem?]
  constructor
  · intro hpage
    obtain ⟨place, hplace, rfl⟩ := List.mem_map.mp hpage
    rw [ht.index_of_place place hplace]
    rfl
  · intro hpage
    obtain ⟨ticket, hticket⟩ := Option.isSome_iff_exists.mp hpage
    exact List.mem_map.mpr ⟨_, ht.place_of_index page ticket hticket, rfl⟩

theorem Coherent.nodup (ht : t.Coherent) : t.queue.Nodup := by
  refine List.pairwise_map.mpr (ht.ordered.imp_of_mem ?_)
  intro p q hp hq hlt hpage
  have hticket := ht.index_of_place p hp
  rw [hpage, ht.index_of_place q hq] at hticket
  exact absurd (Option.some.inj hticket) (Nat.ne_of_gt hlt)

/-! ## Touching -/

theorem touch_started (t : QueuedTracker) (page : PageId) :
    (t.touch page).started = t.started := by
  unfold touch
  split <;> rfl

/-- A page that is new to the queue is put at its end, and one that is in it stays where it is. -/
theorem Coherent.queue_touch (ht : t.Coherent) (page : PageId) :
    (t.touch page).queue
      = if t.started = true ∧ page ∉ t.queue then t.queue ++ [page] else t.queue := by
  by_cases hnew : t.started = true ∧ page ∉ t.queue
  · have hindex := hnew
    rw [ht.mem_queue] at hindex
    rw [if_pos hnew, touch, if_neg (by simpa using hindex)]
    simp [queue]
  · have hindex := hnew
    rw [ht.mem_queue] at hindex
    rw [if_neg hnew, touch, if_pos (by simpa [Decidable.imp_iff_not_or] using hindex)]

theorem Coherent.touch (ht : t.Coherent) (page : PageId) : (t.touch page).Coherent := by
  unfold QueuedTracker.touch
  split
  · exact ht
  next hnew =>
  have hnone : page ∉ t.index := fun hmem => hnew (Or.inr hmem)
  have hother : ∀ place ∈ t.places, page ≠ place.page := by
    intro place hplace hpage
    exact hnone (ht.mem_queue.mp (List.mem_map.mpr ⟨place, hplace, hpage.symm⟩))
  refine {
    place_of_index := ?_
    index_of_place := ?_
    ordered := ?_
    issued := ?_ }
  · intro x ticket hx
    rw [getElem?_index_insert] at hx
    by_cases hpage : page = x
    · rw [if_pos hpage] at hx
      cases hx
      exact hpage ▸ List.mem_append_right _ (List.mem_singleton.mpr rfl)
    · rw [if_neg hpage] at hx
      exact List.mem_append_left _ (ht.place_of_index x ticket hx)
  · intro place hplace
    rw [getElem?_index_insert]
    rcases List.mem_append.mp hplace with hold | hlast
    · rw [if_neg (hother place hold)]
      exact ht.index_of_place place hold
    · rw [List.mem_singleton.mp hlast]
      exact if_pos rfl
  · refine List.pairwise_append.mpr ⟨ht.ordered, List.pairwise_singleton _ _, ?_⟩
    intro place hplace last hlast
    rw [List.mem_singleton.mp hlast]
    exact ht.issued place hplace
  · intro place hplace
    rcases List.mem_append.mp hplace with hold | hlast
    · exact Nat.lt_succ_of_lt (ht.issued place hold)
    · rw [List.mem_singleton.mp hlast]
      exact Nat.lt_succ_self _

theorem Coherent.mem_touch (ht : t.Coherent) (hstarted : t.started = true) :
    x ∈ (t.touch page).queue ↔ x = page ∨ x ∈ t.queue := by
  rw [ht.queue_touch]
  by_cases hmem : page ∈ t.queue
  · rw [if_neg (fun h => h.2 hmem)]
    exact ⟨Or.inr, fun h => h.elim (fun he => he ▸ hmem) id⟩
  · rw [if_pos ⟨hstarted, hmem⟩, List.mem_append, List.mem_singleton, or_comm]

/-! ## Leaving -/

/-- The queue once the page at one of its places has left. -/
theorem Coherent.vacate (ht : t.Coherent) {front back : List QueuePlace} {place : QueuePlace}
    (hplaces : t.places = front ++ place :: back) :
    (t.vacate place.page (front ++ back)).Coherent
      ∧ place.page ∉ (t.vacate place.page (front ++ back)).queue := by
  have hsub : (front ++ back).Sublist t.places := by
    rw [hplaces]
    exact List.Sublist.append_left (List.sublist_cons_self _ _) _
  have hnodup : (place.page :: (front ++ back).map (·.page)).Nodup := by
    have hall := ht.nodup
    rw [queue, hplaces, List.map_append, List.map_cons] at hall
    rw [List.map_append]
    exact List.perm_middle.nodup_iff.mp hall
  have hout : ∀ p ∈ front ++ back, place.page ≠ p.page := by
    intro p hp hpage
    exact (List.nodup_cons.mp hnodup).1 (List.mem_map.mpr ⟨p, hp, hpage.symm⟩)
  refine ⟨{
    place_of_index := ?_
    index_of_place := ?_
    ordered := ht.ordered.sublist hsub
    issued := fun p hp => ht.issued p (hsub.subset hp) }, (List.nodup_cons.mp hnodup).1⟩
  · intro x ticket hx
    change (t.index.erase place.page)[x]? = some ticket at hx
    rw [getElem?_index_erase] at hx
    by_cases hpage : place.page = x
    · rw [if_pos hpage] at hx
      cases hx
    · rw [if_neg hpage] at hx
      have hmem := ht.place_of_index x ticket hx
      rw [hplaces] at hmem
      rcases List.mem_append.mp hmem with hfront | hback
      · exact List.mem_append_left _ hfront
      · rcases List.mem_cons.mp hback with heq | hback
        · exact absurd (congrArg (·.page) heq).symm hpage
        · exact List.mem_append_right _ hback
  · intro p hp
    change (t.index.erase place.page)[p.page]? = some p.ticket
    rw [getElem?_index_erase, if_neg (hout p hp)]
    exact ht.index_of_place p (hsub.subset hp)

theorem Coherent.vacate_head (ht : t.Coherent) {place : QueuePlace} {more : List QueuePlace}
    (hplaces : t.places = place :: more) : (t.vacate place.page more).Coherent := by
  have hfront : t.places = [] ++ place :: more := hplaces
  exact (ht.vacate hfront).1

/-- A page that is taken out was not in the queue, or its place is gone and no other. -/
theorem Coherent.remove_cases (ht : t.Coherent) (page : PageId) :
    (page ∉ t.queue ∧ t.remove page = t)
      ∨ ∃ front place back, t.places = front ++ place :: back ∧ place.page = page
        ∧ t.remove page = t.vacate page (front ++ back) := by
  unfold remove
  cases hindex : t.index[page]? with
  | none =>
    refine Or.inl ⟨?_, rfl⟩
    rw [ht.mem_queue, Std.TreeMap.mem_iff_isSome_getElem?, hindex]
    exact Bool.false_ne_true
  | some ticket =>
    obtain ⟨front, back, hplaces⟩ := List.append_of_mem (ht.place_of_index page ticket hindex)
    refine Or.inr ⟨front, ⟨ticket, page⟩, back, hplaces, rfl, ?_⟩
    -- Tickets grow, so none of the places in front has this one.
    have hfront : ∀ place ∈ front, place.ticket ≠ ticket := by
      intro place hplace
      have hordered := ht.ordered
      rw [hplaces] at hordered
      exact Nat.ne_of_lt ((List.pairwise_append.mp hordered).2.2 place hplace _ List.mem_cons_self)
    simp only [hplaces]
    rw [List.eraseP_append_right _ (by simpa using hfront), List.eraseP_cons_of_pos (by simp)]

theorem remove_started (t : QueuedTracker) (page : PageId) :
    (t.remove page).started = t.started := by
  unfold remove
  split <;> rfl

theorem Coherent.remove (ht : t.Coherent) (page : PageId) : (t.remove page).Coherent := by
  rcases ht.remove_cases page with ⟨-, hsame⟩ | ⟨front, place, back, hplaces, rfl, hremove⟩
  · rw [hsame]
    exact ht
  · rw [hremove]
    exact (ht.vacate hplaces).1

/-- Just the page itself leaves, and the others keep their order. -/
theorem Coherent.queue_remove (ht : t.Coherent) (page : PageId) :
    (t.remove page).queue = t.queue.erase page := by
  rcases ht.remove_cases page with ⟨hpage, hsame⟩ | ⟨front, place, back, hplaces, rfl, hremove⟩
  · rw [hsame, List.erase_of_not_mem hpage]
  · have hout := (ht.vacate hplaces).2
    have hfront : place.page ∉ front.map (·.page) := by
      intro hmem
      rw [queue, QueuedTracker.vacate, List.map_append] at hout
      exact hout (List.mem_append_left _ hmem)
    rw [hremove]
    simp only [QueuedTracker.vacate, queue, hplaces, List.map_append, List.map_cons]
    rw [List.erase_append_right _ hfront, List.erase_cons_head]

theorem Coherent.mem_remove (ht : t.Coherent) :
    x ∈ (t.remove page).queue ↔ x ∈ t.queue ∧ x ≠ page := by
  rw [ht.queue_remove, ht.nodup.mem_erase_iff, and_comm]

section Forgetting

variable {σ : Type} [RowStore σ]

theorem forget_started (t : QueuedTracker) (s : σ) (page : PageId) :
    (t.forget s page).started = t.started := by
  unfold forget
  split
  · rfl
  · exact t.remove_started page

/-- Only a page without rows is forgotten. -/
theorem Coherent.queue_forget (ht : t.Coherent) (s : σ) (page : PageId) :
    (t.forget s page).queue
      = if RowStore.holdsRows s page = true then t.queue else t.queue.erase page := by
  unfold forget
  split
  · rfl
  · exact ht.queue_remove page

theorem Coherent.forget (ht : t.Coherent) (s : σ) (page : PageId) :
    (t.forget s page).Coherent ∧ ∀ x, x ∈ (t.forget s page).queue
      ↔ x ∈ t.queue ∧ (x = page → RowStore.holdsRows s page = true) := by
  unfold QueuedTracker.forget
  by_cases hholds : RowStore.holdsRows s page = true
  · rw [if_pos hholds]
    exact ⟨ht, fun x => ⟨fun hx => ⟨hx, fun _ => hholds⟩, And.left⟩⟩
  · rw [if_neg hholds]
    refine ⟨ht.remove page, fun x => ht.mem_remove.trans (and_congr_right fun _ => ?_)⟩
    exact ⟨fun hne he => absurd he hne, fun h he => hholds (h he)⟩

end Forgetting

/-! ## Evicting -/

section Evicting

variable {σ : Type} [RowStore σ]

/-- What evicting from the queue can end in: the pages at the head that hold no rows are dropped,
and the first that holds rows is the victim, if there is one. -/
inductive HeadEviction (t : QueuedTracker) (s : σ) :
    Except Fault PageId × QueuedTracker × σ → Prop
  | evicted (stale : List PageId) (victim : PageId) (u : QueuedTracker)
      (queue : t.queue = stale ++ victim :: u.queue)
      (empty : ∀ x ∈ stale, RowStore.holdsRows s x = false)
      (holds : RowStore.holdsRows s victim = true)
      (coherent : u.Coherent) (started : u.started = t.started) :
      HeadEviction t s (.ok victim, u, (RowStore.dropRows s victim).2)
  | refused (u : QueuedTracker) (empty : ∀ x ∈ t.queue, RowStore.holdsRows s x = false)
      (none : u.queue = []) (coherent : u.Coherent) (started : u.started = t.started) :
      HeadEviction t s (.error .nothingTracked, u, s)

/-- The head is dropped if it holds no rows. -/
theorem HeadEviction.afterStale {s : σ} {u : QueuedTracker}
    {out : Except Fault PageId × QueuedTracker × σ} (h : HeadEviction u s out)
    (hqueue : t.queue = page :: u.queue) (hpage : RowStore.holdsRows s page = false)
    (hstarted : u.started = t.started) : HeadEviction t s out := by
  cases h with
  | evicted stale victim w queue empty holds coherent started =>
    refine .evicted (page :: stale) victim w ?_ ?_ holds coherent (started.trans hstarted)
    · rw [hqueue, queue, List.cons_append]
    · exact List.forall_mem_cons.mpr ⟨hpage, empty⟩
  | refused w empty none coherent started =>
    refine .refused w ?_ none coherent (started.trans hstarted)
    rw [hqueue]
    exact List.forall_mem_cons.mpr ⟨hpage, empty⟩

variable [LawfulRowStore σ]

/-- **Evicting takes the first page that holds rows.** The induction is on the places. -/
theorem Coherent.evictFirst (ht : t.Coherent) (s : σ) :
    HeadEviction t s (evictFirst t.places t s) := by
  generalize hplaces : t.places = places
  induction places generalizing t with
  | nil =>
    have hnone : t.queue = [] := by rw [queue, hplaces]; rfl
    refine .refused t ?_ hnone ht rfl
    rw [hnone]
    exact List.forall_mem_nil _
  | cons place more ih =>
    have hcoherent := ht.vacate_head hplaces
    have hqueue : t.queue = place.page :: (t.vacate place.page more).queue := by
      rw [queue, hplaces]
      rfl
    unfold QueuedTracker.evictFirst
    rcases dropRows_cases s place.page with ⟨hholds, s', hdrop⟩ | ⟨hempty, fault, hkind, hdrop⟩
    · have hdropped : s' = (RowStore.dropRows s place.page).2 := by rw [hdrop]
      simp only [hdrop]
      rw [hdropped]
      exact .evicted [] place.page _ hqueue (List.forall_mem_nil _) hholds hcoherent rfl
    · simp only [hdrop, hkind, if_true]
      exact (ih hcoherent rfl).afterStale hqueue hempty rfl

theorem Coherent.evict (ht : t.Coherent) (s : σ) : HeadEviction t s (t.evict s) :=
  ht.evictFirst s

/-- A queue has no limit of attempts. -/
theorem HeadEviction.eviction {s s' : σ} {result : Except Fault PageId} {u : QueuedTracker}
    (h : HeadEviction t s (result, u, s')) (limit : Nat) :
    Eviction limit s t.queue result u.queue s' := by
  cases h with
  | evicted stale victim u queue empty holds coherent started =>
    refine .evicted victim stale u.queue _ holds ?_ empty ?_
    · rw [← LawfulRowStore.drop_of_holds s victim holds]
    · rw [queue]
      exact List.perm_middle
  | refused u empty none coherent started =>
    rw [none]
    exact .refused _ t.queue [] rfl empty (by rw [List.append_nil]) (Or.inl rfl)

omit [LawfulRowStore σ] in
theorem HeadEviction.coherent {s s' : σ} {result : Except Fault PageId} {u : QueuedTracker}
    (h : HeadEviction t s (result, u, s')) : u.Coherent ∧ u.started = t.started := by
  cases h with
  | evicted _ _ _ _ _ _ coherent started => exact ⟨coherent, started⟩
  | refused _ _ _ coherent started => exact ⟨coherent, started⟩

end Evicting

end QueuedTracker
end PageRegions
