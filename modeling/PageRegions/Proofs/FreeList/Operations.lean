import PageRegions.Proofs.FreeList.Invariant

/-!
# Operations of a free list keep its invariant

Each operation is first described by what it can end in, with everything that decides between the
cases (`Insertion`, `Removal`, `evict_cases`, `recycle_cases`, `takeRecycled_cases`); a proof about
an operation is then a case analysis of that and never opens the operation itself. From the
descriptions follow at once that an error leaves the list as it was, and that the invariant is kept.

The search for a page with room (`findRoom?`) asks the pages of the row's own bucket and trusts
those of higher buckets. That the trust is deserved, `findRoom?_fits`, is the one place where the
order of bucket numbers matters.
-/

set_option autoImplicit false

namespace PageRegions
namespace FreeList

/-! ## The search for room -/

theorem mem_bucket_of_mem_drop {f : FreeList} {b : Nat} {ids : List PageId} {id : PageId}
    (hids : ids ∈ f.buckets.drop b) (hid : id ∈ ids) : ∃ c, b ≤ c ∧ id ∈ f.bucket c := by
  obtain ⟨i, hi⟩ := List.mem_iff_getElem?.mp hids
  rw [List.getElem?_drop] at hi
  exact ⟨b + i, Nat.le_add_right b i, by rw [bucket, List.getD_eq_getElem?_getD, hi]; exact hid⟩

/-- **The page that is found has room**, whether it was asked or trusted. -/
theorem findRoom?_fits {f : FreeList} (hf : f.Inv) {row : UInt32} {id : PageId}
    (hrow : row ≤ f.capacity) (h : f.findRoom? row = some id) :
    ∃ p, f.page? id = some p ∧ row ≤ f.room p := by
  unfold findRoom? at h
  split at h
  · cases h
  · next b hb =>
    split at h
    · next id' hfind =>
      cases h
      have hfits := List.find?_some hfind
      unfold fits at hfits
      split at hfits
      · cases hfits
      · next p hp => exact ⟨p, hp, by simpa using hfits⟩
    -- These pages are not asked, and need not be: a page that is filed above the bucket of the row
    -- has more room than the row takes.
    · obtain ⟨ids, hids, hhead⟩ := Option.bind_eq_some_iff.mp h
      obtain ⟨c, hc, hid⟩ := mem_bucket_of_mem_drop (List.mem_of_find?_eq_some hids)
        (List.mem_of_head? hhead)
      obtain ⟨p, hp, hroom⟩ := (hf.mem_bucket c id).mp hid
      have hlt := lt_of_bucketFor_lt hrow (room_le (hf.used_le hp)) hb hroom hc
      exact ⟨p, hp, UInt32.le_of_lt hlt⟩

/-! ## Placing a row -/

/-- What placing a row can end in. A row that is refused or for which there is no page leaves the
list as it was. -/
inductive Insertion {σ : Type} (allocate : σ → Except Fault PageId × σ) (f : FreeList)
    (row : UInt32) (s : σ) : Except Fault PageId × FreeList × σ → Prop
  /-- There are no rows of this size. -/
  | refused (fault : Fault)
      (size : row = 0 ∧ fault = .emptyRow
        ∨ f.capacity < row ∧ fault = .rowTooLarge row f.capacity) :
      Insertion allocate f row s (.error fault, f, s)
  /-- It goes to a data page with room. -/
  | added (id : PageId) (pos : row ≠ 0) (fits : row ≤ f.capacity)
      (found : f.findRoom? row = some id) :
      Insertion allocate f row s (.ok id, f.addRow id row, s)
  /-- It goes to the latest page of the pool. -/
  | reopened (id : PageId) (g : FreeList) (pos : row ≠ 0) (fits : row ≤ f.capacity)
      (full : f.findRoom? row = none) (popped : f.popPool = some (id, g)) :
      Insertion allocate f row s (.ok id, g.openPage id row, s)
  /-- It goes to a page that is allocated. -/
  | opened (id : PageId) (t : σ) (pos : row ≠ 0) (fits : row ≤ f.capacity)
      (full : f.findRoom? row = none) (empty : f.pool = []) (allocated : allocate s = (.ok id, t)) :
      Insertion allocate f row s (.ok id, f.openPage id row, t)
  /-- There is no page for it. -/
  | unplaced (fault : Fault) (t : σ) (pos : row ≠ 0) (fits : row ≤ f.capacity)
      (full : f.findRoom? row = none) (empty : f.pool = [])
      (failed : allocate s = (.error fault, t)) :
      Insertion allocate f row s (.error fault, f, t)

theorem popPool_none_iff {f : FreeList} : f.popPool = none ↔ f.pool = [] := by
  unfold popPool
  split
  · next h => simp [h]
  · next h => simp [h]

theorem popPool_pages {f g : FreeList} {id : PageId} (h : f.popPool = some (id, g)) :
    g.pages = f.pages := by
  unfold popPool at h
  split at h
  · cases h
  · cases h
    rfl

theorem insertRow_insertion {σ : Type} (allocate : σ → Except Fault PageId × σ) (f : FreeList)
    (row : UInt32) (s : σ) : Insertion allocate f row s (f.insertRow allocate row s) := by
  unfold insertRow
  split
  · next h => exact .refused _ (Or.inl ⟨h, rfl⟩)
  · next hpos =>
    split
    · next h => exact .refused _ (Or.inr ⟨h, rfl⟩)
    · next hle =>
      have hfits := UInt32.not_lt.mp hle
      split
      · next id hfound => exact .added id hpos hfits hfound
      · next hfull =>
        split
        · next id g hpop => exact .reopened id g hpos hfits hfull hpop
        · next hpop =>
          have hempty := popPool_none_iff.mp hpop
          split
          · next fault t hfail => exact .unplaced fault t hpos hfits hfull hempty hfail
          · next id t hok => exact .opened id t hpos hfits hfull hempty hok

/-! ## The invariant -/

/-- Both halves for a page that has an account and gets a new one. -/
theorem Inv.reaccount {f : FreeList} (hf : f.Inv) {p q : DataPage} (hp : f.page? p.id = some p)
    (hid : q.id = p.id) (hq : q.used ≤ f.capacity) {used : UInt64}
    (hused : used = f.used - p.used.toUInt64 + q.used.toUInt64) :
    ((((f.unbucket p).putPage q).rebucket q).withUsed used).Inv := by
  have hbut := hf.unbucket hp
  rw [← hid] at hbut
  have hinv := hbut.account (q := q) (by rw [← unbucket_capacity f p] at hq; exact hq)
  rw [putPage_withUsed, rebucket_withUsed, withUsed_withUsed, withUsed_used, ← hused] at hinv
  exact hinv

theorem Inv.addRow {f : FreeList} (hf : f.Inv) {id : PageId} {row : UInt32} {p : DataPage}
    (hp : f.page? id = some p) (hroom : row ≤ f.room p) : (f.addRow id row).Inv := by
  have hid := page?_id hp
  subst hid
  have hle := UInt32.le_iff_toNat_le.mp hroom
  rw [room_toNat (hf.used_le hp)] at hle
  have hcap := UInt32.le_iff_toNat_le.mp (hf.used_le hp)
  have hsum : (p.used + row).toNat = p.used.toNat + row.toNat := by
    have := f.capacity.toNat_lt
    rw [UInt32.toNat_add, Nat.mod_eq_of_lt (by omega)]
  unfold FreeList.addRow
  simp only [hp, Option.getD_some, rebucket_used, putPage_used, unbucket_used]
  refine hf.reaccount (q := ⟨p.id, p.used + row, p.rows + 1⟩) hp rfl ?_ ?_
  · rw [UInt32.le_iff_toNat_le, hsum]
    omega
  · rw [← UInt64.ofNat_uInt32ToNat (p.used + row), hsum, UInt64.ofNat_add,
      UInt64.ofNat_uInt32ToNat, UInt64.ofNat_uInt32ToNat, ← UInt64.add_assoc,
      UInt64.sub_add_cancel]

theorem Inv.openPage {f : FreeList} (hf : f.Inv) {id : PageId} {row : UInt32}
    (hid : f.page? id = none) (hpool : id ∉ f.pool) (hrow : row ≤ f.capacity) :
    (f.openPage id row).Inv := by
  have hinv := (hf.but_of_none hid hpool).account (q := ⟨id, row, 1⟩) hrow
  unfold FreeList.openPage
  simp only [rebucket_used, putPage_used]
  exact hinv

theorem Inv.popPool {f g : FreeList} (hf : f.Inv) {id : PageId}
    (h : f.popPool = some (id, g)) : g.Inv ∧ id ∉ g.pool ∧ f.pool = id :: g.pool
      ∧ g.pages = f.pages ∧ g.capacity = f.capacity := by
  unfold FreeList.popPool at h
  split at h
  · cases h
  · next x more hpool =>
    cases h
    have hnd := hf.pool_nodup
    rw [hpool, List.nodup_cons] at hnd
    refine ⟨{ hf with
      pool_nodup := hnd.2
      marked_nodup := hf.marked_nodup.filter _
      mem_marked := fun y => ?_
      apart := fun y hy => hf.apart y (hpool ▸ List.mem_cons_of_mem _ hy) }, hnd.1, hpool, rfl,
      rfl⟩
    simp only [List.mem_filter, hf.mem_marked, hpool, List.mem_cons, ne_eq, decide_eq_true_eq]
    constructor
    · rintro ⟨rfl | hy, hne⟩
      · exact absurd rfl hne
      · exact hy
    · intro hy
      exact ⟨Or.inr hy, fun hyx => hnd.1 (hyx ▸ hy)⟩

/-- **Placing a row keeps the invariant**, if a page that is allocated for it is new to the list. -/
theorem Inv.insertRow {σ : Type} {allocate : σ → Except Fault PageId × σ} {f : FreeList}
    (hf : f.Inv) {row : UInt32} {s : σ} {out : Except Fault PageId × FreeList × σ}
    (h : Insertion allocate f row s out)
    (hnew : ∀ id t, allocate s = (.ok id, t) → f.page? id = none) : out.2.1.Inv := by
  cases h with
  | refused => exact hf
  | added id _ fits found =>
    obtain ⟨p, hp, hroom⟩ := findRoom?_fits hf fits found
    exact hf.addRow hp hroom
  | reopened id g _ fits _ popped =>
    obtain ⟨hg, hid, hpool, hpages, hcap⟩ := hf.popPool popped
    refine hg.openPage ?_ hid (by rw [hcap]; exact fits)
    rw [page?_congr hpages]
    exact hf.apart id (hpool ▸ List.mem_cons_self)
  | opened id t _ fits _ empty allocated =>
    exact hf.openPage (hnew id t allocated) (by simp [empty]) fits
  | unplaced => exact hf

/-! ## Removing a row, and all rows -/

/-- The list after a page has lost its rows. -/
def close (f : FreeList) (p : DataPage) : FreeList :=
  ((f.unbucket p).withUsed (f.used - p.used.toUInt64)).retire p.id

/-- The account of a page after it has lost a row. -/
def lessRow (p : DataPage) (row : UInt32) : DataPage := ⟨p.id, p.used - row, p.rows - 1⟩

@[simp] theorem lessRow_id (p : DataPage) (row : UInt32) : (lessRow p row).id = p.id := rfl

/-- The list after a page has lost a row, but not its last. -/
def lessen (f : FreeList) (p : DataPage) (row : UInt32) : FreeList :=
  (((f.unbucket p).withUsed (f.used - row.toUInt64)).putPage (lessRow p row)).rebucket
    (lessRow p row)

/-- What removing a row can end in. -/
inductive Removal (f : FreeList) (id : PageId) (row : UInt32) :
    Except Fault Bool × FreeList → Prop
  /-- The page has no rows, or no row of this size. -/
  | refused (fault : Fault) : Removal f id row (.error fault, f)
  /-- The row was the last, and the page goes to the pool. -/
  | emptied (p : DataPage) (found : f.page? id = some p) (fits : row ≤ p.used) (last : p.rows = 1) :
      Removal f id row (.ok true, f.close p)
  | kept (p : DataPage) (found : f.page? id = some p) (fits : row ≤ p.used) (more : p.rows ≠ 1) :
      Removal f id row (.ok false, f.lessen p row)

theorem removeRow_removal (f : FreeList) (id : PageId) (row : UInt32) :
    Removal f id row (f.removeRow id row) := by
  unfold removeRow
  split
  · exact .refused _
  · next p hp =>
    split
    · exact .refused _
    · next hcond =>
      rw [not_or] at hcond
      have hfits := UInt32.not_lt.mp hcond.1
      have hid := page?_id hp
      subst hid
      simp only [unbucket_used]
      split
      · next hlast => exact .emptied p hp hfits hlast
      · next hmore => exact .kept p hp hfits hmore

/-- Eviction succeeds just on data pages. -/
theorem evict_cases (f : FreeList) (id : PageId) :
    (∃ p, f.page? id = some p ∧ f.evict id = (.ok (), f.close p))
      ∨ (f.page? id = none ∧ f.evict id = (.error (.pageHoldsNoRows id), f)) := by
  unfold evict
  cases hp : f.page? id with
  | none => exact Or.inr ⟨rfl, rfl⟩
  | some p =>
    have hid := page?_id hp
    subst hid
    exact Or.inl ⟨p, rfl, rfl⟩

theorem Inv.close {f : FreeList} (hf : f.Inv) {id : PageId} {p : DataPage}
    (hp : f.page? id = some p) : (f.close p).Inv := by
  have hid := page?_id hp
  subst hid
  exact (hf.unbucket hp).retire

theorem Inv.lessen {f : FreeList} (hf : f.Inv) {id : PageId} {row : UInt32} {p : DataPage}
    (hp : f.page? id = some p) (hrow : row ≤ p.used) : (f.lessen p row).Inv := by
  have hid := page?_id hp
  subst hid
  have hle := UInt32.le_iff_toNat_le.mp hrow
  have hcap := UInt32.le_iff_toNat_le.mp (hf.used_le hp)
  have hdiff : (p.used - row).toNat = p.used.toNat - row.toNat := UInt32.toNat_sub_of_le _ _ hrow
  have hsplit : p.used.toUInt64 = (p.used - row).toUInt64 + row.toUInt64 := by
    rw [← UInt64.ofNat_uInt32ToNat p.used, ← UInt64.ofNat_uInt32ToNat (p.used - row),
      ← UInt64.ofNat_uInt32ToNat row, ← UInt64.ofNat_add, hdiff, Nat.sub_add_cancel hle]
  unfold FreeList.lessen
  rw [putPage_withUsed, rebucket_withUsed]
  refine hf.reaccount (q := lessRow p row) hp rfl ?_ ?_
  · rw [lessRow, UInt32.le_iff_toNat_le, hdiff]
    omega
  · rw [lessRow, hsplit]
    grind

/-! ## The pool -/

theorem Inv.pushPool {f : FreeList} (hf : f.Inv) {id : PageId} (hid : f.page? id = none)
    (hpool : id ∉ f.pool) : (f.pushPool id).Inv := by
  have hinv := (hf.but_of_none hid hpool).retire
  unfold FreeList.retire at hinv
  rw [filter_id_of_page?_none hid] at hinv
  exact hinv

theorem recycle_cases (f : FreeList) (isAllocated : PageId → Bool) (id : PageId) :
    (f.page? id = none ∧ id ∉ f.marked ∧ isAllocated id = true
        ∧ f.recycle isAllocated id = (.ok (), f.pushPool id))
      ∨ ∃ fault, f.recycle isAllocated id = (.error fault, f) := by
  unfold recycle
  split
  · exact Or.inr ⟨_, rfl⟩
  · next hholds =>
    split
    · exact Or.inr ⟨_, rfl⟩
    · next hmarked =>
      split
      · exact Or.inr ⟨_, rfl⟩
      · next halloc =>
        refine Or.inl ⟨?_, hmarked, by simpa using halloc, rfl⟩
        simpa [holds] using hholds

theorem takeRecycled_cases (f : FreeList) :
    (∃ id g, f.popPool = some (id, g) ∧ f.takeRecycled = (.ok id, g))
      ∨ (f.pool = [] ∧ f.takeRecycled = (.error (.noRecycledPage f.region), f)) := by
  unfold takeRecycled
  cases hpop : f.popPool with
  | none => exact Or.inr ⟨popPool_none_iff.mp hpop, rfl⟩
  | some out => exact Or.inl ⟨out.1, out.2, rfl, rfl⟩

/-! ## Where pages are afterwards

A page is a data page, pooled, or neither. These lemmas say what each change does to that, and to
the number of data pages. -/

section Whereabouts

variable {f : FreeList} {id x : PageId} {row : UInt32} {p : DataPage}

@[simp] theorem addRow_pool : (f.addRow id row).pool = f.pool := by
  simp [addRow]

@[simp] theorem addRow_capacity : (f.addRow id row).capacity = f.capacity := by
  simp [addRow]

theorem addRow_holds_other (hx : x ≠ id) : (f.addRow id row).holds x = f.holds x := by
  change ((((f.unbucket _).putPage _).rebucket _).page? x).isSome = (f.page? x).isSome
  rw [page?_rebucket, page?_putPage, page?_unbucket, if_neg hx]

theorem addRow_holds (hp : f.page? id = some p) : (f.addRow id row).holds x = f.holds x := by
  by_cases hx : x = id
  · subst hx
    change ((((f.unbucket _).putPage _).rebucket _).page? x).isSome = (f.page? x).isSome
    rw [page?_rebucket, page?_putPage, if_pos rfl, hp]
    rfl
  · exact addRow_holds_other hx

theorem addRow_length (hk : (f.pages.map (·.id)).Nodup) (hp : f.page? id = some p) :
    (f.addRow id row).pages.length = f.pages.length := by
  have hid := page?_id hp
  subst hid
  change (((f.unbucket _).putPage _).rebucket _).pages.length = f.pages.length
  rw [rebucket_pages, putPage, unbucket_pages]
  exact (perm_filter_id hk (mem_of_page? hp)).length_eq

@[simp] theorem openPage_pool : (f.openPage id row).pool = f.pool := by
  simp [openPage]

@[simp] theorem openPage_capacity : (f.openPage id row).capacity = f.capacity := by
  simp [openPage]

theorem openPage_pages :
    (f.openPage id row).pages = ⟨id, row, 1⟩ :: f.pages.filter fun q => q.id ≠ id := by
  simp [openPage, putPage]

theorem openPage_holds : (f.openPage id row).holds x = (decide (x = id) || f.holds x) := by
  change (((f.putPage _).rebucket _).page? x).isSome = (_ || (f.page? x).isSome)
  rw [page?_rebucket, page?_putPage]
  by_cases hx : x = id <;> simp [hx]

theorem openPage_length (hid : f.page? id = none) :
    (f.openPage id row).pages.length = f.pages.length + 1 := by
  rw [openPage_pages, List.length_cons, filter_id_of_page?_none hid]

@[simp] theorem close_pool : (f.close p).pool = p.id :: f.pool := by
  simp [close]

@[simp] theorem close_capacity : (f.close p).capacity = f.capacity := by
  simp [close]

theorem close_holds : (f.close p).holds x = (decide (x ≠ p.id) && f.holds x) := by
  unfold holds close
  rw [page?_retire, withUsed_page?, page?_unbucket]
  by_cases hx : x = p.id <;> simp [hx]

theorem close_length (hk : (f.pages.map (·.id)).Nodup) (hp : f.page? id = some p) :
    (f.close p).pages.length + 1 = f.pages.length := by
  rw [close, retire_pages, withUsed_pages, unbucket_pages]
  exact (perm_filter_id hk (mem_of_page? hp)).length_eq

@[simp] theorem lessen_pool : (f.lessen p row).pool = f.pool := by
  simp [lessen]

@[simp] theorem lessen_capacity : (f.lessen p row).capacity = f.capacity := by
  simp [lessen]

theorem lessen_holds (hp : f.page? id = some p) : (f.lessen p row).holds x = f.holds x := by
  have hid := page?_id hp
  subst hid
  unfold holds lessen
  rw [page?_rebucket, page?_putPage, withUsed_page?, page?_unbucket, lessRow_id]
  by_cases hx : x = p.id
  · subst hx
    rw [if_pos rfl, hp]
    rfl
  · rw [if_neg hx]

theorem lessen_length (hk : (f.pages.map (·.id)).Nodup) (hp : f.page? id = some p) :
    (f.lessen p row).pages.length = f.pages.length := by
  rw [lessen, rebucket_pages, putPage, withUsed_pages, unbucket_pages]
  exact (perm_filter_id hk (mem_of_page? hp)).length_eq

end Whereabouts

end FreeList
end PageRegions
