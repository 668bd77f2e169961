import PageRegions.Proofs.FreeList.LiveRows
import PageRegions.Proofs.FreeList.Reachable

/-!
# Which page a row goes to

A row is put on a data page that was found among buckets, and most pages are never looked at. A scan
of all of them would do no better: a page is found just if some data page has room, and no page with
room stands in a lower bucket than the one that is found (`findRoom?_lowest`, `findRoom?_eq_none`).
Where no data page has room the row goes to the page that was pooled last, of those that are in the
pool, and memory is asked for a page only if there is none.

Two things are not in a list and come in here. A bucket is a set, and in which order its pages are
looked at is open: `Recorded` lets the order change between any two calls. And which page was pooled
last is a matter of what happened before, so `Recorded` has a record of the pages that came into the
pool, the latest first. That the pool, from which pages come and go, keeps that order is an
invariant of its own (`Recent`).
-/

set_option autoImplicit false

namespace PageRegions
namespace FreeList

variable {σ : Type}

/-! ## The search, in full -/

/-- Whether a data page has room for a row is a matter of its bytes. -/
theorem Inv.le_room_iff {f : FreeList} (hf : f.Inv) {p : DataPage} (hp : p ∈ f.pages)
    {row : UInt32} : row ≤ f.room p ↔ p.used.toNat + row.toNat ≤ f.capacity.toNat := by
  have hle := UInt32.le_iff_toNat_le.mp (hf.within p hp)
  rw [UInt32.le_iff_toNat_le, room_toNat (hf.within p hp)]
  omega

theorem fits_of_page? {f : FreeList} {row : UInt32} {id : PageId} {p : DataPage}
    (hp : f.page? id = some p) : f.fits row id = decide (row ≤ f.room p) := by
  unfold fits
  rw [hp]

/-- A page with room for a row stands in no lower bucket than the row. -/
theorem Inv.le_bucket_of_fits {f : FreeList} (hf : f.Inv) {row : UInt32} {b c : Nat} {id : PageId}
    (hrow : row ≤ f.capacity) (hb : f.bucketFor row = some b) (hid : id ∈ f.bucket c)
    (hfits : f.fits row id = true) : b ≤ c := by
  obtain ⟨p, hp, hc⟩ := (hf.mem_bucket c id).mp hid
  rw [fits_of_page? hp, decide_eq_true_eq] at hfits
  by_contra hlt
  have hless := lt_of_bucketFor_lt (room_le (hf.used_le hp)) hrow hc hb (Nat.not_le.mp hlt)
  exact absurd (UInt32.lt_of_lt_of_le hless hfits) (UInt32.lt_irrefl _)

theorem bucket_drop (f : FreeList) (b i : Nat) :
    (f.buckets.drop b).getD i [] = f.bucket (b + i) := by
  rw [bucket, List.getD_eq_getElem?_getD, List.getD_eq_getElem?_getD, List.getElem?_drop]

/-- **No page with room stands below the one that is found.** -/
theorem findRoom?_lowest {f : FreeList} (hf : f.Inv) {row : UInt32} {id : PageId}
    (hrow : row ≤ f.capacity) (h : f.findRoom? row = some id) :
    ∃ b, id ∈ f.bucket b ∧ ∀ c < b, ∀ x ∈ f.bucket c, f.fits row x = false := by
  unfold findRoom? at h
  split at h
  · cases h
  · next b hb =>
    have hbelow : ∀ c < b, ∀ x ∈ f.bucket c, f.fits row x = false := fun c hc x hx => by
      rw [Bool.eq_false_iff]
      exact fun hfits => absurd (hf.le_bucket_of_fits hrow hb hx hfits) (Nat.not_le.mpr hc)
    split at h
    · next id' hfind =>
      cases h
      exact ⟨b, List.mem_of_find?_eq_some hfind, hbelow⟩
    -- The row's own bucket has no page for it, and those between it and the one that was taken
    -- have no page at all.
    · next hown =>
      obtain ⟨ids, hids, hhead⟩ := Option.bind_eq_some_iff.mp h
      obtain ⟨-, before, after, hsplit, hempty⟩ := List.find?_eq_some_iff_append.mp hids
      have hat : ∀ i, f.bucket (b + 1 + i) = (before ++ ids :: after).getD i [] := fun i => by
        rw [← bucket_drop, hsplit]
      refine ⟨b + 1 + before.length, ?_, fun c hc x hx => ?_⟩
      · rw [hat, List.getD_eq_getElem?_getD, List.getElem?_append_right (Nat.le_refl _)]
        simpa using List.mem_of_head? hhead
      · rcases Nat.lt_trichotomy c b with hlt | rfl | hgt
        · exact hbelow c hlt x hx
        · rw [Bool.eq_false_iff]
          exact fun hfits => List.find?_eq_none.mp hown x hx hfits
        · obtain ⟨i, rfl⟩ := Nat.exists_eq_add_of_lt hgt
          have hi : i < before.length := by omega
          rw [show b + i + 1 = b + 1 + i by omega, hat, List.getD_eq_getElem?_getD,
            List.getElem?_append_left hi, List.getElem?_eq_getElem hi, Option.getD_some] at hx
          have hnil := hempty before[i] (List.getElem_mem hi)
          rw [Bool.not_not, List.isEmpty_iff] at hnil
          rw [hnil] at hx
          cases hx

/-- **A page with room is not missed.** -/
theorem findRoom?_eq_none {f : FreeList} (hf : f.Inv) {row : UInt32} (hpos : row ≠ 0)
    (hrow : row ≤ f.capacity) (h : f.findRoom? row = none) {p : DataPage} (hp : p ∈ f.pages) :
    ¬ row ≤ f.room p := by
  intro hroom
  have hfound := page?_of_mem hf.keyed hp
  have hne : f.room p ≠ 0 := fun hz =>
    hpos (UInt32.le_antisymm (hz ▸ hroom) (UInt32.le_iff_toNat_le.mpr (Nat.zero_le _)))
  have hle := room_le (hf.within p hp)
  obtain ⟨c, hc⟩ := bucketFor_isSome hle hne
  obtain ⟨b, hb⟩ := bucketFor_isSome hrow hpos
  have hmem : p.id ∈ f.bucket c := (hf.mem_bucket c p.id).mpr ⟨p, hfound, hc⟩
  have hfits : f.fits row p.id = true := by
    rw [fits_of_page? hfound]
    exact decide_eq_true hroom
  have hbc := hf.le_bucket_of_fits hrow hb hmem hfits
  unfold findRoom? at h
  rw [hb] at h
  simp only at h
  split at h
  · cases h
  · next hown =>
    rcases Nat.eq_or_lt_of_le hbc with rfl | hlt
    · exact List.find?_eq_none.mp hown p.id hmem hfits
    · obtain ⟨i, rfl⟩ := Nat.exists_eq_add_of_lt hlt
      rw [show b + i + 1 = b + 1 + i by omega, ← bucket_drop] at hmem
      -- A bucket that has a page is among those that are searched, so one is found that has some.
      have hsome : ((f.buckets.drop (b + 1)).find? fun ids => !ids.isEmpty).isSome = true := by
        rw [List.find?_isSome]
        rw [List.getD_eq_getElem?_getD] at hmem
        rcases hget : (f.buckets.drop (b + 1))[i]? with _ | ids
        · rw [hget] at hmem
          cases hmem
        · rw [hget] at hmem
          refine ⟨ids, List.mem_of_getElem? hget, ?_⟩
          rw [Bool.not_eq_true', List.isEmpty_eq_false_iff]
          exact List.ne_nil_of_mem hmem
      obtain ⟨ids, hids⟩ := Option.isSome_iff_exists.mp hsome
      have hnonempty := List.find?_some hids
      rw [hids, Option.bind_some, List.head?_eq_none_iff] at h
      rw [h] at hnonempty
      cases hnonempty

/-! ## Buckets in another order -/

/-- Two lists that differ at most in the order in which buckets keep their pages. -/
structure SameButOrder (f g : FreeList) : Prop where
  rest : g = { f with buckets := g.buckets }
  length : g.buckets.length = f.buckets.length
  perm : ∀ b, (g.bucket b).Perm (f.bucket b)

theorem SameButOrder.inv {f g : FreeList} (h : SameButOrder f g) (hf : f.Inv) : g.Inv := by
  obtain ⟨hrest, hlength, hperm⟩ := h
  have hpages : g.pages = f.pages := by rw [hrest]
  have hcap : g.capacity = f.capacity := by rw [hrest]
  have hpool : g.pool = f.pool := by rw [hrest]
  have hmarked : g.marked = f.marked := by rw [hrest]
  have hused : g.used = f.used := by rw [hrest]
  exact {
    keyed := by rw [hpages]; exact hf.keyed
    buckets_length := hlength.trans hf.buckets_length
    mem_bucket := fun b id => by
      rw [(hperm b).mem_iff, hf.mem_bucket]
      simp only [page?_congr hpages, bucketFor_congr hcap, room_congr hcap]
    bucket_nodup := fun b => (hperm b).nodup_iff.mpr (hf.bucket_nodup b)
    within := by rw [hpages, hcap]; exact hf.within
    pool_nodup := by rw [hpool]; exact hf.pool_nodup
    marked_nodup := by rw [hmarked]; exact hf.marked_nodup
    mem_marked := by rw [hmarked, hpool]; exact hf.mem_marked
    apart := by
      rw [hpool]
      exact fun id hid => (page?_congr hpages id).trans (hf.apart id hid)
    used_eq := by rw [hused, hf.used_eq, usedBytes, usedBytes, hpages] }

/-! ## The order of the pool -/

/-- The pages that are in the pool of a list but were not in that of the list before. -/
def newlyPooled (before after : FreeList) : List PageId :=
  after.pool.filter fun id => id ∉ before.pool

/-- Pages in the order in which each of them stands first in a record. -/
structure Recent (log pool : List PageId) : Prop where
  ordered : pool.Pairwise fun a b => log.idxOf a < log.idxOf b
  recorded : ∀ id ∈ pool, id ∈ log

theorem Recent.sublist {log pool fewer : List PageId} (h : Recent log pool)
    (hsub : fewer.Sublist pool) : Recent log fewer :=
  ⟨h.ordered.sublist hsub, fun id hid => h.recorded id (hsub.subset hid)⟩

/-- A page that comes into the pool comes first in both. -/
theorem Recent.push {log pool : List PageId} (h : Recent log pool) {id : PageId}
    (hnew : id ∉ pool) : Recent (id :: log) (id :: pool) := by
  have hlater : ∀ a ∈ pool, (id :: log).idxOf a = log.idxOf a + 1 := fun a ha =>
    List.idxOf_cons_ne log fun he => hnew (he ▸ ha)
  refine ⟨List.pairwise_cons.mpr ⟨fun a ha => ?_, ?_⟩, fun a ha => ?_⟩
  · rw [List.idxOf_cons_self, hlater a ha]
    exact Nat.succ_pos _
  · refine h.ordered.imp_of_mem fun ha hb hlt => ?_
    rw [hlater _ ha, hlater _ hb]
    exact Nat.succ_lt_succ hlt
  · rcases List.mem_cons.mp ha with rfl | ha
    · exact List.mem_cons_self
    · exact List.mem_cons_of_mem id (h.recorded a ha)

/-- The first page of the pool is the one of its pages that the record has first. -/
theorem Recent.find?_eq_head? {log pool : List PageId} (h : Recent log pool) :
    log.find? (· ∈ pool) = pool.head? := by
  cases pool with
  | nil => simp
  | cons id more =>
    obtain ⟨hfirst, -⟩ := List.pairwise_cons.mp h.ordered
    obtain ⟨before, after, hlog, hid⟩ :=
      List.eq_append_cons_of_mem (h.recorded id List.mem_cons_self)
    -- A page of the pool that stood before `id` in the record would stand before it in the pool.
    have hnone : before.find? (· ∈ id :: more) = none := by
      refine List.find?_eq_none.mpr fun x hx hmem => ?_
      rw [decide_eq_true_eq, List.mem_cons] at hmem
      rcases hmem with rfl | hmem
      · exact hid hx
      · have hlater := hfirst x hmem
        have hlt := List.idxOf_lt_length_iff.mpr hx
        rw [hlog, List.idxOf_append_of_notMem hid, List.idxOf_append_of_mem hx] at hlater
        omega
    rw [hlog, List.find?_append, hnone, Option.none_or, List.head?_cons]
    exact List.find?_cons_of_pos (by simp)

/-- What a call does to the pool: nothing, or it takes the first page, or it puts one in front. -/
inductive PoolStep (f g : FreeList) : Prop
  | same (same : g.pool = f.pool)
  | taken (id : PageId) (taken : f.pool = id :: g.pool)
  | put (id : PageId) (new : id ∉ f.pool) (put : g.pool = id :: f.pool)

theorem Inv.close_pool_new {f : FreeList} (hf : f.Inv) {id : PageId} {p : DataPage}
    (hp : f.page? id = some p) : p.id ∉ f.pool := by
  rw [page?_id hp]
  intro hid
  rw [hf.apart id hid] at hp
  cases hp

theorem Inv.perform_pool {v : PageSource σ} {f : FreeList} (hf : f.Inv) (s : σ) (c : ListCall) :
    PoolStep f (f.perform v s c).2.1 := by
  cases c with
  | recycle id =>
    rcases recycle_cases f (v.isAllocated s) id with ⟨-, hmark, -, hr⟩ | ⟨fault, hr⟩
    · simp only [FreeList.perform, hr]
      exact .put id (fun h => hmark ((hf.mem_marked id).mpr h)) rfl
    · simp only [FreeList.perform, hr]
      exact .same rfl
  | take =>
    rcases takeRecycled_cases f with ⟨id, g, hpop, hr⟩ | ⟨-, hr⟩
    · simp only [FreeList.perform, hr]
      exact .taken id (hf.popPool hpop).2.2.1
    · simp only [FreeList.perform, hr]
      exact .same rfl
  | insert row =>
    have hins := insertRow_insertion v.allocate f row s
    simp only [FreeList.perform]
    generalize f.insertRow v.allocate row s = out at hins
    cases hins with
    | refused | unplaced => exact .same rfl
    | added => exact .same addRow_pool
    | reopened id g _ _ _ popped =>
      exact .taken id ((hf.popPool popped).2.2.1.trans (by rw [openPage_pool]))
    | opened => exact .same openPage_pool
  | remove id row =>
    have hrem := removeRow_removal f id row
    simp only [FreeList.perform]
    generalize f.removeRow id row = out at hrem
    cases hrem with
    | refused => exact .same rfl
    | emptied p found => exact .put p.id (hf.close_pool_new found) close_pool
    | kept => exact .same lessen_pool
  | evict id =>
    rcases evict_cases f id with ⟨p, found, hr⟩ | ⟨-, hr⟩
    · simp only [FreeList.perform, hr]
      exact .put p.id (hf.close_pool_new found) close_pool
    · simp only [FreeList.perform, hr]
      exact .same rfl

/-- The order of the pool is kept if what comes into it is written down. -/
theorem Recent.step {f g : FreeList} {log : List PageId} (h : Recent log f.pool)
    (hstep : PoolStep f g) : Recent (newlyPooled f g ++ log) g.pool := by
  have hnothing : g.pool ⊆ f.pool → newlyPooled f g = [] := fun hsub =>
    List.filter_eq_nil_iff.mpr fun id hid => by simpa using hsub hid
  cases hstep with
  | same same =>
    rw [hnothing (by rw [same]; exact List.Subset.refl _), same]
    exact h
  | taken id taken =>
    rw [hnothing (by rw [taken]; exact List.subset_cons_self id g.pool)]
    exact h.sublist (by rw [taken]; exact List.sublist_cons_self id g.pool)
  | put id new put =>
    have hnew : newlyPooled f g = [id] := by
      unfold newlyPooled
      rw [put, List.filter_cons_of_pos (by simpa using new)]
      exact congrArg (id :: ·) (List.filter_eq_nil_iff.mpr fun x hx => by simpa using hx)
    rw [hnew, put]
    exact h.push new

/-! ## Lists with their record -/

/-- The lists that calls lead to, in whatever order buckets keep their pages, with the state of page
memory and with the pages that came into the pool, the latest first. -/
inductive Recorded (v : PageSource σ) (own : Finset PageId) (capacity : UInt32) :
    FreeList → σ → List PageId → Prop
  | fresh (region : String) (s : σ) : Recorded v own capacity (fresh region capacity) s []
  | call (c : ListCall) {f : FreeList} {s : σ} {log : List PageId}
      (before : Recorded v own capacity f s log) (fair : Fair v own f s c) :
      Recorded v own capacity (f.perform v s c).2.1 (f.perform v s c).2.2
        (newlyPooled f (f.perform v s c).2.1 ++ log)
  | outside (t : σ) {f : FreeList} {s : σ} {log : List PageId}
      (before : Recorded v own capacity f s log) : Recorded v own capacity f t log
  | reordered {f g : FreeList} {s : σ} {log : List PageId}
      (before : Recorded v own capacity f s log) (same : SameButOrder f g) :
      Recorded v own capacity g s log

theorem Recorded.inv {v : PageSource σ} {own : Finset PageId} {capacity : UInt32} {f : FreeList}
    {s : σ} {log : List PageId} (h : Recorded v own capacity f s log) :
    f.Inv ∧ f.PagesIn own ∧ f.capacity = capacity ∧ Recent log f.pool := by
  induction h with
  | fresh region s =>
    refine ⟨inv_fresh region capacity, ?_, rfl, .nil, nofun⟩
    rintro id (hid | hid) <;> cases hid
  | call c _ fair ih =>
    obtain ⟨hf, hown, hcap, hrecent⟩ := ih
    obtain ⟨hg, hgown, hgcap⟩ := hf.perform hown fair
    exact ⟨hg, hgown, hgcap.trans hcap, hrecent.step (hf.perform_pool _ c)⟩
  | outside t _ ih => exact ih
  | @reordered f g s log _ same ih =>
    obtain ⟨hf, hown, hcap, hrecent⟩ := ih
    have hpages : g.pages = f.pages := by rw [same.rest]
    have hpool : g.pool = f.pool := by rw [same.rest]
    refine ⟨same.inv hf, fun id hid => hown id ?_, by rw [same.rest]; exact hcap,
      by rw [hpool]; exact hrecent⟩
    rwa [holds, page?_congr hpages, hpool] at hid

/-! ## The choice -/

/-- Whether a page has so many free bytes. -/
def HasRoom (f : FreeList) (row : UInt32) (p : DataPage) : Prop :=
  p.used.toNat + row.toNat ≤ f.capacity.toNat

/-- How a row finds its page. -/
structure Chosen (allocate : σ → Except Fault PageId × σ) (f : FreeList) (row : UInt32) (s : σ)
    (log : List PageId) : Prop where
  /-- It goes to a data page just if some data page has room. -/
  onDataPage : (∃ id, (f.insertRow allocate row s).1 = .ok id ∧ f.holds id = true)
    ↔ ∃ p ∈ f.pages, f.HasRoom row p
  /-- That page has room, and none has room that stands in a lower bucket. -/
  lowest : ∀ id p, (f.insertRow allocate row s).1 = .ok id → f.page? id = some p →
    f.HasRoom row p
      ∧ (f.insertRow allocate row s).2.1.page? id = some ⟨id, p.used + row, p.rows + 1⟩
      ∧ ∃ b, id ∈ f.bucket b ∧ ∀ c < b, ∀ q ∈ f.pages, q.id ∈ f.bucket c → ¬ f.HasRoom row q
  /-- Otherwise it goes to the page that was pooled last. -/
  fromPool : (¬ ∃ p ∈ f.pages, f.HasRoom row p) → f.pool ≠ [] →
    ∃ id, (f.insertRow allocate row s).1 = .ok id ∧ log.find? (· ∈ f.pool) = some id
      ∧ f.pool = id :: (f.insertRow allocate row s).2.1.pool
      ∧ (f.insertRow allocate row s).2.1.page? id = some ⟨id, row, 1⟩
  /-- Memory is not asked for a page if there is one: another memory would make no difference. -/
  unasked : (∃ p ∈ f.pages, f.HasRoom row p) ∨ f.pool ≠ [] →
    (f.insertRow allocate row s).2.2 = s
      ∧ ∀ other, f.insertRow other row s = f.insertRow allocate row s
  /-- If there is none it is. A page that it refuses leaves the list as it was. -/
  asked : (¬ ∃ p ∈ f.pages, f.HasRoom row p) → f.pool = [] →
    (∀ id t, allocate s = (.ok id, t) →
      f.insertRow allocate row s = (.ok id, f.openPage id row, t))
    ∧ ∀ fault t, allocate s = (.error fault, t) →
      f.insertRow allocate row s = (.error fault, f, t)

/-- All bucket numbers that are used are those of buckets, and only full pages have none. -/
structure Numbered (f : FreeList) : Prop where
  row : ∀ row, row ≠ 0 → row ≤ f.capacity → ∃ b < bucketCount, f.bucketFor row = some b
  page : ∀ p ∈ f.pages, p.used ≠ f.capacity →
    ∃ b < bucketCount, f.bucketFor (f.room p) = some b
  full : ∀ p ∈ f.pages, p.used = f.capacity → f.bucketFor (f.room p) = none

theorem Inv.numbered {f : FreeList} (hf : f.Inv) : f.Numbered where
  row row hpos hrow := by
    obtain ⟨b, hb⟩ := bucketFor_isSome hrow hpos
    exact ⟨b, bucketFor_lt hrow hb, hb⟩
  page p hp hne := by
    have hle := hf.within p hp
    obtain ⟨b, hb⟩ := bucketFor_isSome (room_le hle) fun hz => hne ((room_eq_zero_iff hle).mp hz)
    exact ⟨b, bucketFor_lt (room_le hle) hb, hb⟩
  full p hp hfull := by
    rw [(room_eq_zero_iff (hf.within p hp)).mpr hfull]
    rfl

section Insertions

variable {f : FreeList} {row : UInt32} (hpos : row ≠ 0) (hrow : row ≤ f.capacity)
  (allocate : σ → Except Fault PageId × σ) (s : σ)

include hpos hrow

theorem insertRow_of_found {id : PageId} (hfind : f.findRoom? row = some id) :
    f.insertRow allocate row s = (.ok id, f.addRow id row, s) := by
  unfold insertRow
  rw [if_neg hpos, if_neg (UInt32.not_lt.mpr hrow), hfind]

theorem insertRow_of_popped (hfind : f.findRoom? row = none) {id : PageId} {g : FreeList}
    (hpop : f.popPool = some (id, g)) :
    f.insertRow allocate row s = (.ok id, g.openPage id row, s) := by
  unfold insertRow
  rw [if_neg hpos, if_neg (UInt32.not_lt.mpr hrow), hfind]
  simp only [hpop]

theorem insertRow_of_allocated (hfind : f.findRoom? row = none) (hempty : f.pool = [])
    {id : PageId} {t : σ} (hasked : allocate s = (.ok id, t)) :
    f.insertRow allocate row s = (.ok id, f.openPage id row, t) := by
  unfold insertRow
  rw [if_neg hpos, if_neg (UInt32.not_lt.mpr hrow), hfind]
  simp only [popPool_none_iff.mpr hempty, hasked]

theorem insertRow_of_refused (hfind : f.findRoom? row = none) (hempty : f.pool = [])
    {fault : Fault} {t : σ} (hasked : allocate s = (.error fault, t)) :
    f.insertRow allocate row s = (.error fault, f, t) := by
  unfold insertRow
  rw [if_neg hpos, if_neg (UInt32.not_lt.mpr hrow), hfind]
  simp only [popPool_none_iff.mpr hempty, hasked]

end Insertions

/-- **A page is found just if a scan of all data pages would find one.** -/
theorem Inv.findRoom?_isSome_iff {f : FreeList} (hf : f.Inv) {row : UInt32} (hpos : row ≠ 0)
    (hrow : row ≤ f.capacity) :
    (∃ id, f.findRoom? row = some id) ↔ ∃ p ∈ f.pages, f.HasRoom row p := by
  constructor
  · rintro ⟨id, hfind⟩
    obtain ⟨p, hp, hroom⟩ := findRoom?_fits hf hrow hfind
    exact ⟨p, mem_of_page? hp, (hf.le_room_iff (mem_of_page? hp)).mp hroom⟩
  · rintro ⟨p, hp, hroom⟩
    refine Option.isSome_iff_exists.mp (Option.isSome_iff_ne_none.mpr fun hnone => ?_)
    exact findRoom?_eq_none hf hpos hrow hnone hp ((hf.le_room_iff hp).mpr hroom)

theorem Inv.not_hasRoom {f : FreeList} (hf : f.Inv) {row : UInt32} (hpos : row ≠ 0)
    (hrow : row ≤ f.capacity) (hfind : f.findRoom? row = none) :
    ¬ ∃ p ∈ f.pages, f.HasRoom row p := by
  rw [← hf.findRoom?_isSome_iff hpos hrow, hfind]
  rintro ⟨id, hid⟩
  cases hid

/-- Rows that find room. -/
theorem Inv.chosen_of_found {f : FreeList} (hf : f.Inv) (log : List PageId)
    (allocate : σ → Except Fault PageId × σ) {row : UInt32} (hpos : row ≠ 0)
    (hrow : row ≤ f.capacity) (s : σ) {id : PageId} (hfind : f.findRoom? row = some id) :
    Chosen allocate f row s log := by
  obtain ⟨p, hp, hroom⟩ := findRoom?_fits hf hrow hfind
  have hfits := (hf.le_room_iff (mem_of_page? hp)).mp hroom
  have hsome : ∃ p ∈ f.pages, f.HasRoom row p := ⟨p, mem_of_page? hp, hfits⟩
  have hins : ∀ other : σ → Except Fault PageId × σ,
      f.insertRow other row s = (.ok id, f.addRow id row, s) :=
    fun other => insertRow_of_found hpos hrow other s hfind
  refine {
    onDataPage := iff_of_true ⟨id, by rw [hins], holds_iff.mpr ⟨p, hp⟩⟩ hsome
    lowest := fun x q hx hq => ?_
    fromPool := fun hfull => absurd hsome hfull
    unasked := fun _ => ⟨by rw [hins], fun other => (hins other).trans (hins allocate).symm⟩
    asked := fun hfull => absurd hsome hfull }
  rw [hins, Except.ok.injEq] at hx
  subst hx
  cases hp.symm.trans hq
  obtain ⟨b, hmem, hbelow⟩ := findRoom?_lowest hf hrow hfind
  refine ⟨hfits, by rw [hins, page?_addRow hp, if_pos rfl], b, hmem, fun c hc q hq hqc hqroom => ?_⟩
  have hno := hbelow c hc q.id hqc
  rw [fits_of_page? (page?_of_mem hf.keyed hq), decide_eq_false_iff_not] at hno
  exact hno ((hf.le_room_iff hq).mpr hqroom)

/-- Rows that find no room, but a page in the pool. -/
theorem Inv.chosen_of_popped {f g : FreeList} (hf : f.Inv) {log : List PageId}
    (hrecent : Recent log f.pool) (allocate : σ → Except Fault PageId × σ) {row : UInt32}
    (hpos : row ≠ 0) (hrow : row ≤ f.capacity) (s : σ) (hfind : f.findRoom? row = none)
    {id : PageId} (hpop : f.popPool = some (id, g)) : Chosen allocate f row s log := by
  obtain ⟨-, -, hpool, -, -⟩ := hf.popPool hpop
  have hnone : f.page? id = none := hf.apart id (hpool ▸ List.mem_cons_self)
  have hfull := hf.not_hasRoom hpos hrow hfind
  have hins : ∀ other : σ → Except Fault PageId × σ,
      f.insertRow other row s = (.ok id, g.openPage id row, s) :=
    fun other => insertRow_of_popped hpos hrow other s hfind hpop
  refine {
    onDataPage := iff_of_false (fun ⟨x, hx, hholds⟩ => ?_) hfull
    lowest := fun x q hx hq => ?_
    fromPool := fun _ _ => ⟨id, by rw [hins], ?_, ?_, ?_⟩
    unasked := fun _ => ⟨by rw [hins], fun other => (hins other).trans (hins allocate).symm⟩
    asked := fun _ hempty => ?_ }
  · rw [hins, Except.ok.injEq] at hx
    rw [← hx, holds, hnone] at hholds
    cases hholds
  · rw [hins, Except.ok.injEq] at hx
    rw [← hx, hnone] at hq
    cases hq
  · rw [hrecent.find?_eq_head?, hpool, List.head?_cons]
  · rw [hins, openPage_pool, hpool]
  · rw [hins, page?_openPage, if_pos rfl]
  · rw [hempty] at hpool
    cases hpool

/-- Rows for which memory is asked for a page. -/
theorem Inv.chosen_of_empty {f : FreeList} (hf : f.Inv) (log : List PageId)
    (allocate : σ → Except Fault PageId × σ) {row : UInt32} (hpos : row ≠ 0)
    (hrow : row ≤ f.capacity) (s : σ) (hfind : f.findRoom? row = none) (hempty : f.pool = [])
    (hnew : ∀ id t, allocate s = (.ok id, t) → f.holds id = false) :
    Chosen allocate f row s log := by
  have hfull := hf.not_hasRoom hpos hrow hfind
  have hplaced : ∀ id, (f.insertRow allocate row s).1 = .ok id → f.holds id = false := by
    intro id hid
    rcases hasked : allocate s with ⟨fault | x, t⟩
    · rw [insertRow_of_refused hpos hrow allocate s hfind hempty hasked] at hid
      cases hid
    · rw [insertRow_of_allocated hpos hrow allocate s hfind hempty hasked] at hid
      cases hid
      exact hnew id t hasked
  refine {
    onDataPage := iff_of_false (fun ⟨x, hx, hholds⟩ => ?_) hfull
    lowest := fun x q hx hq => ?_
    fromPool := fun _ hpool => absurd hempty hpool
    unasked := fun hor => hor.elim (fun hroom => absurd hroom hfull) (absurd hempty ·)
    asked := fun _ _ => ⟨fun id t => insertRow_of_allocated hpos hrow allocate s hfind hempty,
      fun fault t => insertRow_of_refused hpos hrow allocate s hfind hempty⟩ }
  · rw [hplaced x hx] at hholds
    cases hholds
  · have hholds := hplaced x hx
    rw [holds, hq] at hholds
    cases hholds

/-- **How a row finds its page**, in every list that calls lead to, with whatever record and in
whatever order buckets keep their pages. It is where a scan of all data pages would put it, if there
is one with room: on a page with room in the lowest bucket that has any. Otherwise it is on the page
that was pooled last, and only without one is memory asked. No bucket is looked for that there is
not, before or after. -/
theorem recorded_chosen {v : PageSource σ} {own : Finset PageId} {capacity : UInt32}
    {f : FreeList} {s : σ} {log : List PageId} (h : Recorded v own capacity f s log)
    {row : UInt32} (hfair : Fair v own f s (.insert row)) (hpos : row ≠ 0)
    (hrow : row ≤ capacity) :
    Chosen v.allocate f row s log ∧ f.Numbered ∧ (f.insertRow v.allocate row s).2.1.Numbered := by
  obtain ⟨hf, hown, hcap, hrecent⟩ := h.inv
  have hrow : row ≤ f.capacity := hcap ▸ hrow
  refine ⟨?_, hf.numbered, (hf.perform hown hfair).1.numbered⟩
  rcases hfind : f.findRoom? row with _ | id
  · rcases hpop : f.popPool with _ | ⟨id, g⟩
    · have hempty := popPool_none_iff.mp hpop
      exact hf.chosen_of_empty log v.allocate hpos hrow s hfind hempty fun id t hasked =>
        (hfair.new row id t rfl hfind hempty hasked).1
    · exact hf.chosen_of_popped hrecent v.allocate hpos hrow s hfind hpop
  · exact hf.chosen_of_found log v.allocate hpos hrow s hfind

/-- Of a page with 40 free bytes and one with 10, which stands in a lower bucket, a row of 12 bytes
finds the first. A row of 50 bytes finds none, and takes the latest of two that are pooled. -/
theorem recorded_chosen_two_rows :
    ∃ f log, Recorded countingSource {⟨0, 0⟩, ⟨0, 1⟩, ⟨0, 2⟩, ⟨0, 3⟩} 100 f 4 log
      ∧ f.bucket 0 = [⟨0, 3⟩] ∧ f.bucket 3 = [⟨0, 0⟩] ∧ log = [⟨0, 2⟩, ⟨0, 1⟩]
      ∧ (f.insertRow countingSource.allocate 12 4).1 = .ok ⟨0, 0⟩
      ∧ Chosen countingSource.allocate f 12 4 log
      ∧ (f.insertRow countingSource.allocate 50 4).1 = .ok ⟨0, 2⟩
      ∧ Chosen countingSource.allocate f 50 4 log := by
  have hfresh : Recorded countingSource {⟨0, 0⟩, ⟨0, 1⟩, ⟨0, 2⟩, ⟨0, 3⟩} 100 (fresh "r" 100) 0 [] :=
    .fresh "r" 0
  have hrows := (((hfresh.call (.insert 60)
    ⟨fun row id t hc _ _ ha => by cases hc; cases ha; decide, nofun⟩).call (.insert 91)
    ⟨fun row id t hc _ _ ha => by cases hc; cases ha; decide, nofun⟩).call (.insert 92)
    ⟨fun row id t hc _ _ ha => by cases hc; cases ha; decide, nofun⟩).call (.insert 90)
    ⟨fun row id t hc _ _ ha => by cases hc; cases ha; decide, nofun⟩
  have hpooled := (hrows.call (.evict ⟨0, 1⟩) ⟨nofun, nofun⟩).call (.evict ⟨0, 2⟩) ⟨nofun, nofun⟩
  refine ⟨_, _, hpooled, by decide, by decide, by decide, by decide, ?_, by decide, ?_⟩
  · exact (recorded_chosen hpooled ⟨fun _ _ _ _ _ hempty => absurd hempty (by decide), nofun⟩
      (by decide) (by decide)).1
  · exact (recorded_chosen hpooled ⟨fun _ _ _ _ _ hempty => absurd hempty (by decide), nofun⟩
      (by decide) (by decide)).1

end FreeList
end PageRegions
