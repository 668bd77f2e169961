import Mathlib.Data.Finset.Card
import PageRegions.Proofs.FreeList.Operations

/-!
# Free lists that can be reached

A free list starts empty and is then called in any order and with any arguments, by several callers
that need not know of each other: pages that are recycled or removed from may be any, and the sizes
of removed rows need not be those of rows that were placed. What page memory does meanwhile is open.
It is a parameter with a state of its own that may change between calls, and all that is asked of it
is `Fair`: the page that it hands out for a row is not one that the list has, and its pages are some
of a fixed set.

`Reached.wellFormed` is the result: the three records of a page (its account, its bucket and its
place in the pool) agree in every list that can be reached, the bytes in use are exactly those of
the accounts, and a call that fails changes nothing at all.
-/

set_option autoImplicit false

namespace PageRegions

/-- Page memory, as far as a free list sees it. -/
structure PageSource (σ : Type) where
  allocate : σ → Except Fault PageId × σ
  isAllocated : σ → PageId → Bool

/-- What a free list can be asked for. -/
inductive ListCall where
  | recycle (id : PageId)
  | take
  | insert (row : UInt32)
  | remove (id : PageId) (row : UInt32)
  | evict (id : PageId)

namespace FreeList

variable {σ : Type}

/-- Carries a call out: whether it failed, the list and the page memory after it. -/
def perform (v : PageSource σ) (f : FreeList) (s : σ) :
    ListCall → Except Fault Unit × FreeList × σ
  | .recycle id =>
    let (result, f) := f.recycle (v.isAllocated s) id
    (result, f, s)
  | .take =>
    let (result, f) := f.takeRecycled
    (result.map fun _ => (), f, s)
  | .insert row =>
    let (result, f, s) := f.insertRow v.allocate row s
    (result.map fun _ => (), f, s)
  | .remove id row =>
    let (result, f) := f.removeRow id row
    (result.map fun _ => (), f, s)
  | .evict id =>
    let (result, f) := f.evict id
    (result, f, s)

/-- What page memory owes a free list in a call. A page that it hands out, because no data page has
room and the pool is empty, is new to the list; this page, and one that it says is allocated, is one
of its own. -/
structure Fair (v : PageSource σ) (own : Finset PageId) (f : FreeList) (s : σ)
    (c : ListCall) : Prop where
  new : ∀ row id t, c = .insert row → f.findRoom? row = none → f.pool = [] →
    v.allocate s = (.ok id, t) → f.holds id = false ∧ id ∈ own
  owned : ∀ id, c = .recycle id → v.isAllocated s id = true → id ∈ own

/-- The lists that calls lead to, with the state of page memory beside them. -/
inductive Reached (v : PageSource σ) (own : Finset PageId) (capacity : UInt32) :
    FreeList → σ → Prop
  | fresh (region : String) (s : σ) : Reached v own capacity (fresh region capacity) s
  | call (c : ListCall) {f : FreeList} {s : σ} (before : Reached v own capacity f s)
      (fair : Fair v own f s c) :
      Reached v own capacity (f.perform v s c).2.1 (f.perform v s c).2.2
  /-- Others use page memory, too. -/
  | outside (t : σ) {f : FreeList} {s : σ} (before : Reached v own capacity f s) :
      Reached v own capacity f t

/-- The list has pages of a set only. -/
def PagesIn (own : Finset PageId) (f : FreeList) : Prop :=
  ∀ id, f.holds id = true ∨ id ∈ f.pool → id ∈ own

theorem PagesIn.close {own : Finset PageId} {f : FreeList} (hown : f.PagesIn own) {id : PageId}
    {p : DataPage} (found : f.page? id = some p) : (f.close p).PagesIn own := by
  rintro x (hx | hx)
  · rw [close_holds, Bool.and_eq_true] at hx
    exact hown x (Or.inl hx.2)
  · rw [close_pool, List.mem_cons, page?_id found] at hx
    rcases hx with rfl | hx
    · exact hown _ (Or.inl (holds_iff.mpr ⟨p, found⟩))
    · exact hown x (Or.inr hx)

/-! ## One call -/

/-- A call that fails leaves the list as it was. -/
theorem perform_error {v : PageSource σ} {f g : FreeList} {s t : σ} {c : ListCall} {fault : Fault}
    (h : f.perform v s c = (.error fault, g, t)) : g = f := by
  cases c with
  | recycle id =>
    rcases recycle_cases f (v.isAllocated s) id with ⟨-, -, -, hr⟩ | ⟨fault', hr⟩
    · simp [perform, hr] at h
    · simp only [perform, hr, Prod.mk.injEq] at h
      exact h.2.1.symm
  | take =>
    rcases takeRecycled_cases f with ⟨id, g', -, hr⟩ | ⟨-, hr⟩
    · simp [perform, hr, Except.map] at h
    · simp only [perform, hr, Prod.mk.injEq] at h
      exact h.2.1.symm
  | insert row =>
    have hins := insertRow_insertion v.allocate f row s
    simp only [perform] at h
    generalize f.insertRow v.allocate row s = out at h hins
    cases hins with
    | refused | unplaced => exact (Prod.mk.inj (Prod.mk.inj h).2).1.symm
    | added | reopened | opened => simp [Except.map] at h
  | remove id row =>
    have hrem := removeRow_removal f id row
    simp only [perform] at h
    generalize f.removeRow id row = out at h hrem
    cases hrem with
    | refused => exact (Prod.mk.inj (Prod.mk.inj h).2).1.symm
    | emptied | kept => simp [Except.map] at h
  | evict id =>
    rcases evict_cases f id with ⟨p, -, hr⟩ | ⟨-, hr⟩
    · simp [perform, hr] at h
    · simp only [perform, hr, Prod.mk.injEq] at h
      exact h.2.1.symm

/-- What one call preserves: the invariant, the capacity, and that the list's pages are those of
page memory. -/
theorem Inv.perform {v : PageSource σ} {own : Finset PageId} {f : FreeList} {s : σ} {c : ListCall}
    (hf : f.Inv) (hown : f.PagesIn own) (hfair : Fair v own f s c) :
    (f.perform v s c).2.1.Inv ∧ (f.perform v s c).2.1.PagesIn own
      ∧ (f.perform v s c).2.1.capacity = f.capacity := by
  cases c with
  | recycle id =>
    rcases recycle_cases f (v.isAllocated s) id with ⟨hid, hmark, halloc, hr⟩ | ⟨fault, hr⟩
    · simp only [FreeList.perform, hr]
      refine ⟨hf.pushPool hid fun h => hmark ((hf.mem_marked id).mpr h), ?_, rfl⟩
      rintro x (hx | hx)
      · exact hown x (Or.inl hx)
      · rcases List.mem_cons.mp hx with rfl | hx
        · exact hfair.owned _ rfl halloc
        · exact hown x (Or.inr hx)
    · simp only [FreeList.perform, hr]
      exact ⟨hf, hown, trivial⟩
  | take =>
    rcases takeRecycled_cases f with ⟨id, g, hpop, hr⟩ | ⟨-, hr⟩
    · simp only [FreeList.perform, hr]
      obtain ⟨hg, -, hpool, hpages, hcap⟩ := hf.popPool hpop
      refine ⟨hg, ?_, hcap⟩
      rintro x (hx | hx)
      · exact hown x (Or.inl (by rwa [holds, page?_congr hpages] at hx))
      · exact hown x (Or.inr (hpool ▸ List.mem_cons_of_mem _ hx))
    · simp only [FreeList.perform, hr]
      exact ⟨hf, hown, trivial⟩
  | insert row =>
    have hins := insertRow_insertion v.allocate f row s
    have hnew := hfair.new row
    simp only [FreeList.perform]
    generalize f.insertRow v.allocate row s = out at hins
    cases hins with
    | refused | unplaced => exact ⟨hf, hown, rfl⟩
    | added id pos fits found =>
      obtain ⟨p, hp, hroom⟩ := findRoom?_fits hf fits found
      refine ⟨hf.addRow hp hroom, ?_, addRow_capacity⟩
      rintro x (hx | hx)
      · exact hown x (Or.inl (by rwa [addRow_holds hp] at hx))
      · exact hown x (Or.inr (by simpa using hx))
    | reopened id g pos fits full popped =>
      obtain ⟨hg, hid, hpool, hpages, hcap⟩ := hf.popPool popped
      have hmem : id ∈ f.pool := hpool ▸ List.mem_cons_self
      refine ⟨hg.openPage (by rw [page?_congr hpages]; exact hf.apart id hmem) hid (hcap ▸ fits),
        ?_, by simpa using hcap⟩
      rintro x (hx | hx)
      · rw [openPage_holds, Bool.or_eq_true, decide_eq_true_eq, holds, page?_congr hpages] at hx
        rcases hx with rfl | hx
        · exact hown x (Or.inr hmem)
        · exact hown x (Or.inl hx)
      · exact hown x (Or.inr (hpool ▸ List.mem_cons_of_mem _ (by simpa using hx)))
    | opened id t pos fits full empty allocated =>
      -- The only call that takes a page from outside, and so the only use of `Fair.new`.
      obtain ⟨hfree, hmem⟩ := hnew id t rfl full empty allocated
      refine ⟨hf.openPage (by simpa [holds] using hfree) (by simp [empty]) fits, ?_,
        openPage_capacity⟩
      rintro x (hx | hx)
      · rw [openPage_holds, Bool.or_eq_true, decide_eq_true_eq] at hx
        rcases hx with rfl | hx
        · exact hmem
        · exact hown x (Or.inl hx)
      · exact hown x (Or.inr (by simpa using hx))
  | remove id row =>
    have hrem := removeRow_removal f id row
    simp only [FreeList.perform]
    generalize f.removeRow id row = out at hrem
    cases hrem with
    | refused => exact ⟨hf, hown, rfl⟩
    | emptied p found fits last =>
      exact ⟨hf.close found, hown.close found, close_capacity⟩
    | kept p found fits more =>
      refine ⟨hf.lessen found fits, ?_, lessen_capacity⟩
      rintro x (hx | hx)
      · exact hown x (Or.inl (by rwa [lessen_holds found] at hx))
      · exact hown x (Or.inr (by simpa using hx))
  | evict id =>
    rcases evict_cases f id with ⟨p, found, hr⟩ | ⟨-, hr⟩
    · simp only [FreeList.perform, hr]
      exact ⟨hf.close found, hown.close found, close_capacity⟩
    · simp only [FreeList.perform, hr]
      exact ⟨hf, hown, trivial⟩

/-! ## All calls -/

theorem Reached.inv {v : PageSource σ} {own : Finset PageId} {capacity : UInt32} {f : FreeList}
    {s : σ} (h : Reached v own capacity f s) :
    f.Inv ∧ f.PagesIn own ∧ f.capacity = capacity := by
  induction h with
  | fresh region s =>
    refine ⟨inv_fresh region capacity, ?_, rfl⟩
    rintro x (hx | hx)
    · simp [holds, page?, FreeList.fresh] at hx
    · simp [FreeList.fresh] at hx
  | call c _ fair ih =>
    obtain ⟨hf, hown, hcap⟩ := ih
    obtain ⟨hf', hown', hcap'⟩ := hf.perform hown fair
    exact ⟨hf', hown', hcap'.trans hcap⟩
  | outside t _ ih => exact ih

/-- A list has no more data pages than page memory has pages. -/
theorem Inv.length_le_card {own : Finset PageId} {f : FreeList} (hf : f.Inv)
    (hown : f.PagesIn own) : f.pages.length ≤ own.card := by
  have hcard := List.toFinset_card_of_nodup hf.keyed
  rw [List.length_map] at hcard
  rw [← hcard]
  refine Finset.card_le_card fun id hid => ?_
  exact hown id (Or.inl (holds_iff_mem.mpr (List.mem_toFinset.mp hid)))

/-- What the three records of a page say agrees, and the counts are those of the records. -/
structure WellFormed (f : FreeList) : Prop where
  keyed : (f.pages.map (·.id)).Nodup
  /-- No page is a data page and pooled. -/
  apart : ∀ id ∈ f.pool, f.holds id = false
  pool_nodup : f.pool.Nodup
  marked_nodup : f.marked.Nodup
  mem_marked : ∀ id, id ∈ f.marked ↔ id ∈ f.pool
  /-- A page with room is in the bucket for its room and in no other. -/
  filed : ∀ p ∈ f.pages, p.used < f.capacity →
    ∃ b < bucketCount, f.bucketFor (f.room p) = some b ∧ ∀ c, p.id ∈ f.bucket c ↔ c = b
  /-- A full page is in none. -/
  unfiled : ∀ p ∈ f.pages, p.used = f.capacity → ∀ c, p.id ∉ f.bucket c
  bucket_nodup : ∀ c, (f.bucket c).Nodup
  holds_of_mem_bucket : ∀ c, ∀ id ∈ f.bucket c, f.holds id = true
  used_eq : f.used.toNat = (f.pages.map (·.used.toNat)).sum
  within : ∀ p ∈ f.pages, p.used ≤ f.capacity
  fill_le : f.fill.1 ≤ f.fill.2
  /-- The capacity of all data pages is a 64-bit word. -/
  fill_lt : f.fill.2 < 2 ^ 64

theorem Inv.wellFormed {f : FreeList} (hf : f.Inv) (hlen : f.pages.length < 2 ^ 32) :
    f.WellFormed := by
  have hfill : f.pages.length * f.capacity.toNat < 2 ^ 64 := by
    calc f.pages.length * f.capacity.toNat
        ≤ (2 ^ 32 - 1) * (2 ^ 32 - 1) :=
          Nat.mul_le_mul (by omega) (by have := f.capacity.toNat_lt; omega)
      _ < 2 ^ 64 := by decide
  have hused := hf.used_toNat hfill
  exact {
    keyed := hf.keyed
    apart := fun id hid => by rw [holds, hf.apart id hid, Option.isSome_none]
    pool_nodup := hf.pool_nodup
    marked_nodup := hf.marked_nodup
    mem_marked := hf.mem_marked
    filed := fun p hp hlt => by
      have hfound := page?_of_mem hf.keyed hp
      have hne : f.room p ≠ 0 := fun hz =>
        UInt32.ne_of_lt hlt ((room_eq_zero_iff (hf.within p hp)).mp hz)
      obtain ⟨b, hb⟩ := bucketFor_isSome (room_le (hf.within p hp)) hne
      refine ⟨b, bucketFor_lt (room_le (hf.within p hp)) hb, hb, fun c => ?_⟩
      rw [hf.mem_bucket]
      constructor
      · rintro ⟨q, hq, hc⟩
        rw [hfound] at hq
        cases hq
        exact Option.some.inj (hc.symm.trans hb)
      · rintro rfl
        exact ⟨p, hfound, hb⟩
    unfiled := fun p hp hfull c hc => by
      obtain ⟨q, hq, hb⟩ := (hf.mem_bucket c p.id).mp hc
      rw [page?_of_mem hf.keyed hp] at hq
      cases hq
      rw [(room_eq_zero_iff (hf.within p hp)).mpr hfull] at hb
      cases hb
    bucket_nodup := hf.bucket_nodup
    holds_of_mem_bucket := fun c id hid => by
      obtain ⟨p, hp, -⟩ := (hf.mem_bucket c id).mp hid
      exact holds_iff.mpr ⟨p, hp⟩
    used_eq := hused
    within := hf.within
    fill_le := by
      change f.used.toNat ≤ f.pages.length * f.capacity.toNat
      rw [hused]
      exact hf.usedBytes_le
    fill_lt := hfill }

/-- **Every list that calls lead to is well-formed**, and a call that fails leaves it as it was:
accounts, buckets, pool, marks and count. -/
theorem reached_wellFormed {v : PageSource σ} {own : Finset PageId} {capacity : UInt32}
    {f : FreeList} {s : σ} (hown : own.card < 2 ^ 32) (h : Reached v own capacity f s) :
    f.WellFormed ∧ ∀ c fault g t, f.perform v s c = (.error fault, g, t) → g = f := by
  obtain ⟨hf, hpages, -⟩ := h.inv
  refine ⟨hf.wellFormed ?_, fun c fault g t hc => perform_error hc⟩
  exact Nat.lt_of_le_of_lt (hf.length_le_card hpages) hown

/-- Page memory that counts the pages it has handed out. -/
def countingSource : PageSource Nat where
  allocate n := (.ok ⟨0, UInt32.ofNat n⟩, n + 1)
  isAllocated n id := id.segment = 0 && id.index.toNat < n

/-- A list with a row of 60 bytes, on a page of 100. -/
theorem reached_wellFormed_one_row :
    ∃ f, Reached countingSource {⟨0, 0⟩} 100 f 1 ∧ f.WellFormed ∧ f.fill = (60, 100) := by
  have hfresh : Reached countingSource {⟨0, 0⟩} 100 (fresh "r" 100) 0 := .fresh "r" 0
  have hrow := hfresh.call (.insert 60)
    ⟨fun row id t hc _ _ ha => by cases hc; cases ha; decide, nofun⟩
  exact ⟨_, hrow, (reached_wellFormed (by decide) hrow).1, by decide⟩

end FreeList
end PageRegions
