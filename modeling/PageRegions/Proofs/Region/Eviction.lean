import PageRegions.Proofs.FreeList.Operations
import PageRegions.Proofs.Tracker.Eviction
import PageRegions.Region

/-!
# Evicting a page of a region

A region evicts with two of its parts: the tracker picks the page, and the free list drops the rows.
That a free list is a store that a tracker may rely on, is the first fact here. With it the
description of what trackers evict becomes one of what regions evict (`PageEviction`), and a list of
victims says all that becomes of the free list (`evictEach`).
-/

set_option autoImplicit false

namespace PageRegions

/-- A free list drops the rows of data pages, and of those only. -/
instance : LawfulRowStore FreeList where
  drop_of_holds f page h := by
    obtain ⟨p, hp⟩ := FreeList.holds_iff.mp h
    rcases f.evict_cases page with ⟨q, -, hev⟩ | ⟨hnone, -⟩
    · exact congrArg Prod.fst hev
    · rw [hnone] at hp
      cases hp
  drop_of_not_holds f page h := by
    rcases f.evict_cases page with ⟨q, hq, -⟩ | ⟨-, hev⟩
    · exact absurd (FreeList.holds_iff.mpr ⟨q, hq⟩) (Bool.eq_false_iff.mp h)
    · exact ⟨_, rfl, hev⟩
  holds_drop f page x h := by
    rcases f.evict_cases page with ⟨q, hq, hev⟩ | ⟨hnone, -⟩
    · change (f.evict page).2.holds x = _
      rw [hev, FreeList.close_holds, FreeList.page?_id hq]
      rfl
    · obtain ⟨p, hp⟩ := FreeList.holds_iff.mp h
      rw [hnone] at hp
      cases hp

/-! ## A list of victims -/

namespace FreeList

/-- The list after the given pages were evicted, one after the other. -/
def evictEach (f : FreeList) (victims : List PageId) : FreeList :=
  victims.foldl (fun f victim => (f.evict victim).2) f

@[simp] theorem evictEach_cons (f : FreeList) (victim : PageId) (more : List PageId) :
    f.evictEach (victim :: more) = (f.evict victim).2.evictEach more := rfl

theorem evict_of_holds {f : FreeList} {victim : PageId} (h : f.holds victim = true) :
    ∃ p, f.page? victim = some p ∧ p.id = victim ∧ f.evict victim = (.ok (), f.close p) := by
  obtain ⟨p, hp⟩ := holds_iff.mp h
  rcases f.evict_cases victim with ⟨q, hq, hev⟩ | ⟨hnone, -⟩
  · exact ⟨q, hq, page?_id hq, hev⟩
  · rw [hnone] at hp
    cases hp

/-- **What becomes of victims**: each of them, if they are different data pages, moves with all of
its rows from the data pages to the pool. -/
theorem evictEach_moves {f : FreeList} {victims : List PageId} (hnodup : victims.Nodup)
    (hholds : ∀ v ∈ victims, f.holds v = true) :
    (f.evictEach victims).pages = f.pages.filter (fun p => decide (p.id ∉ victims))
      ∧ (f.evictEach victims).pool = victims.reverse ++ f.pool := by
  induction victims generalizing f with
  | nil => exact ⟨(List.filter_eq_self.mpr (by simp)).symm, rfl⟩
  | cons v more ih =>
    obtain ⟨hv, hmore⟩ := List.nodup_cons.mp hnodup
    obtain ⟨p, hp, hid, hev⟩ := evict_of_holds (hholds v List.mem_cons_self)
    have hleft : ∀ w ∈ more, (f.close p).holds w = true := by
      intro w hw
      rw [close_holds, hid, hholds w (List.mem_cons_of_mem _ hw)]
      simpa using fun he : w = v => hv (he ▸ hw)
    obtain ⟨hpages, hpool⟩ := ih hmore hleft
    rw [evictEach_cons, hev]
    refine ⟨?_, ?_⟩
    · rw [hpages]
      change List.filter _ (List.filter _ (f.unbucket p).pages) = _
      rw [unbucket_pages, List.filter_filter, hid]
      refine List.filter_congr fun q _ => ?_
      simp [not_or, Bool.and_comm]
    · rw [hpool, close_pool, hid, List.reverse_cons, List.append_assoc]
      rfl

end FreeList

namespace Region

/-- The tracked pages that hold rows. -/
def evictable (r : Region) : List PageId := r.tracker.pages.filter fun x => r.freeList.holds x

/-- The tracked pages that hold none. -/
def stale (r : Region) : List PageId := r.tracker.pages.filter fun x => !r.freeList.holds x

/-! ## One eviction -/

/-- What evicting a page of a region can end in. Memory is not involved. -/
inductive PageEviction (r : Region) (h : Host) : Except Fault Unit × Region × Host → Prop
  /-- A victim is moved to the pool, and counted. -/
  | evicted (victim : PageId) (stale : List PageId) (t : Tracker) (drawn : Nat)
      (holds : r.freeList.holds victim = true)
      (empty : ∀ x ∈ stale, r.freeList.holds x = false)
      (perm : r.tracker.pages.Perm (victim :: (stale ++ t.pages)))
      (coherent : t.Coherent) (started : t.started = r.tracker.started)
      (kind : t.kind = r.tracker.kind) :
      PageEviction r h (.ok (),
        { r with
          tracker := t
          freeList := (r.freeList.evict victim).2
          store := { r.store with metrics := r.store.metrics.countEviction h.now } },
        { h with drawn := drawn })
  /-- There is no victim, or too many pages without rows stood in the way. -/
  | refused (fault : Fault) (stale : List PageId) (t : Tracker) (drawn : Nat)
      (cause : fault.deniesVictim = true)
      (empty : ∀ x ∈ stale, r.freeList.holds x = false)
      (perm : r.tracker.pages.Perm (stale ++ t.pages))
      (why : t.pages = [] ∨ SampledTracker.attemptLimit ≤ stale.length)
      (coherent : t.Coherent) (started : t.started = r.tracker.started)
      (kind : t.kind = r.tracker.kind) :
      PageEviction r h (.error fault, { r with tracker := t }, { h with drawn := drawn })

theorem evictPage_eviction {r : Region} (hcoherent : r.tracker.Coherent)
    (hkind : r.tracker.kind ≠ .idle) (h : Host) : PageEviction r h (r.evictPage h) := by
  obtain ⟨result, t, f, drawn, heq, ht, hstarted, hk, hev⟩ :=
    hcoherent.evict hkind r.freeList h
  unfold evictPage
  rw [heq]
  cases hev with
  | evicted victim stale _ _ holds dropped empty perm =>
    have hf : f = (r.freeList.evict victim).2 := (congrArg Prod.snd dropped).symm
    subst hf
    exact .evicted victim stale t drawn holds empty perm ht hstarted hk
  | refused fault stale _ cause empty perm why =>
    exact .refused fault stale t drawn cause empty perm why ht hstarted hk

/-! ## Pages that can be evicted -/

theorem mem_evictable {r : Region} {x : PageId} :
    x ∈ r.evictable ↔ x ∈ r.tracker.pages ∧ r.freeList.holds x = true :=
  List.mem_filter

/-- An eviction takes its victim, and nothing else, from the pages that can be evicted. -/
theorem perm_evictable {r s : Region} {victim : PageId} {dropped : List PageId}
    (hcoherent : r.tracker.Coherent) (hholds : r.freeList.holds victim = true)
    (hempty : ∀ x ∈ dropped, r.freeList.holds x = false)
    (hperm : r.tracker.pages.Perm (victim :: (dropped ++ s.tracker.pages)))
    (hlist : s.freeList = (r.freeList.evict victim).2) :
    r.evictable.Perm (victim :: s.evictable) ∧ s.stale.length ≤ r.stale.length := by
  have hnodup := hcoherent.nodup
  have hvictim : victim ∉ s.tracker.pages := by
    have := (hperm.nodup_iff.mp hnodup)
    rw [List.nodup_cons, List.mem_append, not_or] at this
    exact this.1.2
  have hsame : ∀ x ∈ s.tracker.pages, s.freeList.holds x = r.freeList.holds x := by
    intro x hx
    have hne : x ≠ victim := fun he => hvictim (he ▸ hx)
    obtain ⟨p, -, hid, hev⟩ := FreeList.evict_of_holds hholds
    rw [hlist, hev, FreeList.close_holds, hid]
    simp [hne]
  have hnone : dropped.filter (fun x => r.freeList.holds x) = [] :=
    List.filter_eq_nil_iff.mpr fun x hx => by simp [hempty x hx]
  refine ⟨?_, ?_⟩
  · have := hperm.filter fun x => r.freeList.holds x
    rw [List.filter_cons_of_pos hholds, List.filter_append, hnone, List.nil_append,
      ← List.filter_congr hsame] at this
    exact this
  · have := (hperm.filter fun x => !r.freeList.holds x).length_eq
    rw [List.filter_cons_of_neg (by simp [hholds]), List.filter_append, List.length_append] at this
    have hs : s.stale = s.tracker.pages.filter (fun x => !r.freeList.holds x) :=
      List.filter_congr fun x hx => by rw [hsame x hx]
    rw [hs]
    unfold stale
    omega

/-- Without a victim there was nothing that could be evicted, unless the attempts ran out. -/
theorem evictable_eq_nil {r : Region} {t : Tracker} {dropped : List PageId}
    (hempty : ∀ x ∈ dropped, r.freeList.holds x = false)
    (hperm : r.tracker.pages.Perm (dropped ++ t.pages)) :
    (t.pages = [] → r.evictable = []) ∧ dropped.length ≤ r.stale.length := by
  constructor
  · intro hnil
    refine List.filter_eq_nil_iff.mpr fun x hx => ?_
    rw [hnil, List.append_nil] at hperm
    rw [hempty x (hperm.mem_iff.mp hx)]
    exact Bool.false_ne_true
  · have := (hperm.filter fun x => !r.freeList.holds x).length_eq
    have hall : dropped.filter (fun x => !r.freeList.holds x) = dropped :=
      List.filter_eq_self.mpr fun x hx => by simp [hempty x hx]
    rw [List.filter_append, hall, List.length_append] at this
    unfold stale
    omega

end Region
end PageRegions
