import Mathlib.Data.List.Nodup
import PageRegions.Tracker.Sampled

/-!
# The slots and the records of a sampled tracker

A sampled tracker keeps its pages twice: in slots, so that one can be drawn by lot, and as the keys
of its records, so that one can be found. `Coherent` says that the slots and the records point at
each other. From that alone it follows that no page has two slots, and that the tracked pages may be
spoken of as a list (`pages`).

Only giving up a slot can go wrong: the page in the last slot moves into the gap, and its record has
to follow it, also when it is the very page that leaves.
-/

set_option autoImplicit false

namespace PageRegions
namespace SampledTracker

/-- The tracked pages. -/
def pages (t : SampledTracker) : List PageId := t.slots.toList

/-- The slots and the records point at each other. -/
structure Coherent (t : SampledTracker) : Prop where
  slot_of_record : ∀ (page : PageId) (record : TouchRecord), t.records[page]? = some record →
    t.slots[record.slot]? = some page
  record_of_slot : ∀ (i : Nat) (page : PageId), t.slots[i]? = some page →
    ∃ record, t.records[page]? = some record ∧ record.slot = i

theorem coherent_fresh (recency : Recency) : (fresh recency).Coherent where
  slot_of_record page record h := by simp [fresh] at h
  record_of_slot i page h := by simp [fresh] at h

/-! ## One slot for each page -/

theorem mem_pages_iff {t : SampledTracker} {page : PageId} :
    page ∈ t.pages ↔ ∃ i : Nat, t.slots[i]? = some page := by
  unfold pages
  rw [List.mem_iff_getElem?]
  simp only [Array.getElem?_toList]

theorem Coherent.mem_pages {t : SampledTracker} (ht : t.Coherent) {page : PageId} :
    page ∈ t.pages ↔ ∃ record, t.records[page]? = some record := by
  rw [mem_pages_iff]
  constructor
  · rintro ⟨i, hi⟩
    obtain ⟨record, hr, -⟩ := ht.record_of_slot i page hi
    exact ⟨record, hr⟩
  · rintro ⟨record, hr⟩
    exact ⟨record.slot, ht.slot_of_record page record hr⟩

theorem Coherent.not_mem_pages {t : SampledTracker} (ht : t.Coherent) {page : PageId} :
    page ∉ t.pages ↔ t.records[page]? = none := by
  rw [ht.mem_pages, Option.eq_none_iff_forall_ne_some]
  exact not_exists

theorem Coherent.slot_inj {t : SampledTracker} (ht : t.Coherent) {i j : Nat} {page : PageId}
    (hi : t.slots[i]? = some page) (hj : t.slots[j]? = some page) : i = j := by
  obtain ⟨r, hr, rfl⟩ := ht.record_of_slot i page hi
  obtain ⟨s, hs, rfl⟩ := ht.record_of_slot j page hj
  rw [hr] at hs
  cases hs
  rfl

theorem Coherent.nodup {t : SampledTracker} (ht : t.Coherent) : t.pages.Nodup := by
  refine List.nodup_iff_injective_getElem.mpr fun i j hij => Fin.ext ?_
  have hi : t.slots[i.val]? = some t.pages[i] := by
    rw [← Array.getElem?_toList]
    exact List.getElem?_eq_getElem i.isLt
  have hj : t.slots[j.val]? = some t.pages[j] := by
    rw [← Array.getElem?_toList]
    exact List.getElem?_eq_getElem j.isLt
  rw [show t.pages[i] = t.pages[j] from hij] at hi
  exact ht.slot_inj hi hj

/-! ## Touching -/

theorem touch_started {t : SampledTracker} {page : PageId} {now : UInt64} :
    (t.touch page now).started = t.started := by
  unfold touch
  split
  · rfl
  · split <;> rfl

theorem touch_recency {t : SampledTracker} {page : PageId} {now : UInt64} :
    (t.touch page now).recency = t.recency := by
  unfold touch
  split
  · rfl
  · split <;> rfl

/-- Touching a page that is tracked changes its times only. -/
theorem Coherent.touch {t : SampledTracker} (ht : t.Coherent) (page : PageId) (now : UInt64) :
    (t.touch page now).Coherent := by
  have hslot : ∀ record, (t.recency.touched record now).slot = record.slot := by
    intro record
    cases t.recency <;> rfl
  unfold SampledTracker.touch
  split
  · exact ht
  · split
    · next old hold =>
      refine ⟨fun x record hx => ?_, fun i x hx => ?_⟩
      · rw [Std.HashMap.getElem?_insert] at hx
        by_cases hpage : page = x
        · subst hpage
          simp only [beq_self_eq_true, if_true, Option.some.injEq] at hx
          rw [← hx, hslot]
          exact ht.slot_of_record _ _ hold
        · rw [if_neg (by simpa using hpage)] at hx
          exact ht.slot_of_record _ _ hx
      · obtain ⟨record, hr, hi⟩ := ht.record_of_slot i x hx
        by_cases hpage : page = x
        · subst hpage
          rw [hold] at hr
          cases hr
          refine ⟨t.recency.touched old now, ?_, (hslot old).trans hi⟩
          simp
        · refine ⟨record, ?_, hi⟩
          rw [Std.HashMap.getElem?_insert, if_neg (by simpa using hpage)]
          exact hr
    · next hnone =>
      have hnew : ∀ i : Nat, t.slots[i]? ≠ some page := by
        intro i hi
        obtain ⟨record, hr, -⟩ := ht.record_of_slot i page hi
        rw [hnone] at hr
        cases hr
      refine ⟨fun x record hx => ?_, fun i x hx => ?_⟩
      · rw [Std.HashMap.getElem?_insert] at hx
        by_cases hpage : page = x
        · subst hpage
          simp only [beq_self_eq_true, if_true, Option.some.injEq] at hx
          rw [← hx, hslot]
          simp
        · rw [if_neg (by simpa using hpage)] at hx
          have hold := ht.slot_of_record _ _ hx
          have hlt := (Array.getElem?_eq_some_iff.mp hold).1
          rw [Array.getElem?_push, if_neg (by omega)]
          exact hold
      · rw [Array.getElem?_push] at hx
        by_cases hi : i = t.slots.size
        · rw [if_pos hi] at hx
          cases hx
          exact ⟨t.recency.touched ⟨t.slots.size, 0, 0⟩ now, by simp, by rw [hslot, hi]⟩
        · rw [if_neg hi] at hx
          obtain ⟨record, hr, hslot'⟩ := ht.record_of_slot i x hx
          have hpage : page ≠ x := fun h => hnew i (h ▸ hx)
          refine ⟨record, ?_, hslot'⟩
          rw [Std.HashMap.getElem?_insert, if_neg (by simpa using hpage)]
          exact hr

theorem mem_touch {t : SampledTracker} (ht : t.Coherent) (hstarted : t.started = true)
    {page x : PageId} {now : UInt64} :
    x ∈ (t.touch page now).pages ↔ x = page ∨ x ∈ t.pages := by
  unfold touch
  simp only [hstarted, Bool.not_true, Bool.false_eq_true, if_false]
  split
  · next old hold =>
    refine ⟨Or.inr, fun h => ?_⟩
    rcases h with rfl | h
    · exact ht.mem_pages.mpr ⟨old, hold⟩
    · exact h
  · simp only [pages, Array.toList_push, List.mem_append, List.mem_singleton, or_comm]

/-! ## Leaving -/

theorem remove_started {t : SampledTracker} {page : PageId} :
    (t.remove page).started = t.started := by
  unfold remove
  split <;> rfl

theorem remove_recency {t : SampledTracker} {page : PageId} :
    (t.remove page).recency = t.recency := by
  unfold remove
  split <;> rfl

/-- What the slots are after a page has left: the last page stands where it stood. -/
theorem getElem?_moved {slots : Array PageId} {gap i : Nat} {last : PageId}
    (hgap : gap < slots.size) :
    ((slots.setIfInBounds gap last).pop)[i]?
      = if i = slots.size - 1 then none else if gap = i then some last else slots[i]? := by
  rw [Array.getElem?_pop, Array.size_setIfInBounds, Array.getElem?_setIfInBounds]
  by_cases hi : i < slots.size - 1
  · have hne : i ≠ slots.size - 1 := by omega
    rw [if_pos hi, if_neg hne]
    by_cases hgi : gap = i
    · rw [if_pos hgi, if_pos hgi, if_pos (by omega)]
    · rw [if_neg hgi, if_neg hgi]
  · rw [if_neg hi]
    by_cases hi' : i = slots.size - 1
    · rw [if_pos hi']
    · have hne : gap ≠ i := by omega
      rw [if_neg hi', if_neg hne, Array.getElem?_eq_none (by omega)]

/-- A tracker that `page` has left: the last page has its slot `gap`, in the slots and in its
record. -/
structure Moved (t u : SampledTracker) (page last : PageId) (gap : Nat) (record : TouchRecord) :
    Prop where
  at_gap : t.slots[gap]? = some page
  at_last : t.slots[t.slots.size - 1]? = some last
  last_record : t.records[last]? = some record
  slots : ∀ i : Nat, u.slots[i]?
    = if i = t.slots.size - 1 then none else if gap = i then some last else t.slots[i]?
  records : ∀ x : PageId, u.records[x]?
    = if page = x then none else if last = x then some { record with slot := gap }
      else t.records[x]?

theorem Coherent.remove_cases {t : SampledTracker} (ht : t.Coherent) (page : PageId) :
    (page ∉ t.pages ∧ t.remove page = t)
      ∨ ∃ last gap record, Moved t (t.remove page) page last gap record := by
  unfold SampledTracker.remove
  rw [Array.back?_eq_getElem?]
  cases hr : t.records[page]? with
  | none => exact Or.inl ⟨ht.not_mem_pages.mpr hr, rfl⟩
  | some old =>
    have hgap := ht.slot_of_record page old hr
    have hlt := (Array.getElem?_eq_some_iff.mp hgap).1
    have hlast : t.slots.size - 1 < t.slots.size := by omega
    have hback := Array.getElem?_eq_getElem hlast
    obtain ⟨record, hlr, -⟩ := ht.record_of_slot _ _ hback
    have hlookup : t.record t.slots[t.slots.size - 1] = record := by
      rw [SampledTracker.record, Std.HashMap.getD_eq_getD_getElem?, hlr, Option.getD_some]
    rw [hback]
    refine Or.inr ⟨t.slots[t.slots.size - 1], old.slot, record, hgap, hback, hlr, fun i => ?_,
      fun x => ?_⟩
    · exact getElem?_moved hlt
    · simp only [hlookup, Std.HashMap.getElem?_erase, Std.HashMap.getElem?_insert, beq_iff_eq]

theorem Coherent.moved {t u : SampledTracker} {page last : PageId} {gap : Nat}
    {record : TouchRecord} (ht : t.Coherent) (h : Moved t u page last gap record) :
    u.Coherent := by
  refine ⟨fun x rx hx => ?_, fun i x hx => ?_⟩
  · rw [h.records] at hx
    by_cases hpx : page = x
    · rw [if_pos hpx] at hx
      cases hx
    rw [if_neg hpx] at hx
    -- The record of the last page was turned to the gap. That this is right needs that the gap was
    -- not the last slot, or the page that left would be the last.
    by_cases hlx : last = x
    · rw [if_pos hlx] at hx
      cases hx
      have hne : gap ≠ t.slots.size - 1 := by
        intro heq
        have hgap := h.at_gap
        rw [heq, h.at_last] at hgap
        exact hpx ((Option.some.inj hgap).symm.trans hlx)
      rw [h.slots, if_neg hne, if_pos rfl, hlx]
    · rw [if_neg hlx] at hx
      have hslot := ht.slot_of_record x rx hx
      have hne : rx.slot ≠ t.slots.size - 1 := by
        intro heq
        rw [heq, h.at_last] at hslot
        exact hlx (Option.some.inj hslot)
      have hne' : gap ≠ rx.slot := by
        intro heq
        have hgap := h.at_gap
        rw [heq, hslot] at hgap
        exact hpx (Option.some.inj hgap).symm
      rw [h.slots, if_neg hne, if_neg hne']
      exact hslot
  · rw [h.slots] at hx
    by_cases hi : i = t.slots.size - 1
    · rw [if_pos hi] at hx
      cases hx
    rw [if_neg hi] at hx
    by_cases hgi : gap = i
    · rw [if_pos hgi] at hx
      cases hx
      have hne : page ≠ last := by
        intro heq
        exact hi (hgi.symm.trans (ht.slot_inj h.at_gap (heq ▸ h.at_last)))
      exact ⟨{ record with slot := gap }, by rw [h.records, if_neg hne, if_pos rfl], hgi⟩
    · rw [if_neg hgi] at hx
      obtain ⟨rx, hrx, hsx⟩ := ht.record_of_slot i x hx
      have hne : page ≠ x := fun heq => hgi (ht.slot_inj h.at_gap (heq ▸ hx))
      have hne' : last ≠ x := fun heq => hi (ht.slot_inj hx (heq ▸ h.at_last))
      exact ⟨rx, by rw [h.records, if_neg hne, if_neg hne', hrx], hsx⟩

/-- **Giving up a slot keeps slots and records together**, and just that page leaves. -/
theorem Coherent.remove {t : SampledTracker} (ht : t.Coherent) (page : PageId) :
    (t.remove page).Coherent ∧ ∀ x, x ∈ (t.remove page).pages ↔ x ∈ t.pages ∧ x ≠ page := by
  rcases ht.remove_cases page with ⟨hpage, heq⟩ | ⟨last, gap, record, h⟩
  · rw [heq]
    exact ⟨ht, fun x => ⟨fun hx => ⟨hx, fun he => hpage (he ▸ hx)⟩, And.left⟩⟩
  · have hc := ht.moved h
    refine ⟨hc, fun x => ?_⟩
    rw [hc.mem_pages, ht.mem_pages, h.records]
    by_cases hpx : page = x
    · simp [hpx]
    rw [if_neg hpx]
    by_cases hlx : last = x
    · subst hlx
      rw [if_pos rfl]
      exact ⟨fun _ => ⟨⟨record, h.last_record⟩, Ne.symm hpx⟩, fun _ => ⟨_, rfl⟩⟩
    · rw [if_neg hlx]
      exact ⟨fun hx => ⟨hx, Ne.symm hpx⟩, And.left⟩

/-- The pages that are left are all others, in some order. -/
theorem Coherent.perm_remove {t : SampledTracker} (ht : t.Coherent) {page : PageId}
    (hpage : page ∈ t.pages) : t.pages.Perm (page :: (t.remove page).pages) := by
  obtain ⟨hc, hmem⟩ := ht.remove page
  refine (List.perm_ext_iff_of_nodup ht.nodup (List.nodup_cons.mpr ⟨?_, hc.nodup⟩)).mpr fun x => ?_
  · rw [hmem]
    exact fun h => h.2 rfl
  · rw [List.mem_cons, hmem]
    by_cases hx : x = page
    · simp [hx, hpage]
    · simp [hx]

/-! ## Victims -/

theorem leastOf_mem {t : SampledTracker} {candidates : List PageId} {victim : PageId}
    (h : t.leastOf candidates = some victim) : victim ∈ candidates := by
  -- The least so far is either what the fold began with or a page it has met.
  have hfold : ∀ (l : List PageId) (best : PageId),
      l.foldl (fun best candidate =>
        if t.recency.rank (t.record candidate) < t.recency.rank (t.record best) then candidate
        else best) best ∈ best :: l := by
    intro l
    induction l with
    | nil => intro best; exact List.mem_singleton.mpr rfl
    | cons c l ih =>
      intro best
      rw [List.foldl_cons]
      have hmem := ih (if t.recency.rank (t.record c) < t.recency.rank (t.record best) then c
        else best)
      rcases List.mem_cons.mp hmem with heq | hmem
      · rw [heq]
        split
        · exact List.mem_cons_of_mem _ List.mem_cons_self
        · exact List.mem_cons_self
      · exact List.mem_cons_of_mem _ (List.mem_cons_of_mem _ hmem)
  cases candidates with
  | nil => cases h
  | cons page more =>
    cases h
    exact hfold more page

theorem leastOf_eq_none_iff {t : SampledTracker} {candidates : List PageId} :
    t.leastOf candidates = none ↔ candidates = [] := by
  cases candidates <;> simp [leastOf]

/-- Every lot stands for a page, and the host is changed in nothing but the count of lots. -/
theorem drawPages_spec {t : SampledTracker} (hpos : 0 < t.slots.size) (n : Nat) (h : Host) :
    (t.drawPages n h).1.length = n ∧ (∀ x ∈ (t.drawPages n h).1, x ∈ t.pages)
      ∧ (t.drawPages n h).2 = { h with drawn := h.drawn + n } := by
  induction n generalizing h with
  | zero => exact ⟨rfl, nofun, rfl⟩
  | succ n ih =>
    obtain ⟨hlen, hmem, hhost⟩ := ih (h.draw t.slots.size).2
    have hlot : h.draws h.drawn % t.slots.size < t.slots.size := Nat.mod_lt _ hpos
    refine ⟨congrArg Nat.succ hlen, fun x hx => ?_, ?_⟩
    · rcases List.mem_cons.mp hx with hx | hx
      · rw [hx, Array.getD_eq_getD_getElem?, Array.getElem?_eq_getElem hlot]
        exact Array.getElem_mem_toList hlot
      · exact hmem x hx
    · change (t.drawPages n (h.draw t.slots.size).2).2 = _
      rw [hhost, Host.draw, Nat.add_assoc, Nat.add_comm 1 n]

/-- There is a victim just if any page is tracked, and then it is one of them. -/
theorem pick_cases (t : SampledTracker) (h : Host) :
    (t.pages = [] ∧ t.pick h = (none, h))
      ∨ ∃ victim n, victim ∈ t.pages ∧ t.pick h = (some victim, { h with drawn := n }) := by
  unfold pick
  by_cases hsmall : t.slots.size ≤ sampleSize
  · rw [if_pos hsmall]
    cases hleast : t.leastOf t.slots.toList with
    | none => exact Or.inl ⟨leastOf_eq_none_iff.mp hleast, rfl⟩
    | some victim => exact Or.inr ⟨victim, h.drawn, leastOf_mem hleast, rfl⟩
  · rw [if_neg hsmall]
    obtain ⟨hlen, hmem, hhost⟩ := drawPages_spec (by omega : 0 < t.slots.size) sampleSize h
    refine Or.inr ?_
    cases hleast : t.leastOf (t.drawPages sampleSize h).1 with
    | none =>
      rw [leastOf_eq_none_iff.mp hleast] at hlen
      cases hlen
    | some victim =>
      exact ⟨victim, h.drawn + sampleSize, hmem _ (leastOf_mem hleast),
        Prod.ext hleast hhost⟩

end SampledTracker
end PageRegions
