import Mathlib.Algebra.GroupWithZero.Nat
import Mathlib.Algebra.Order.BigOperators.Group.List
import Mathlib.Algebra.Order.Group.Nat
import Mathlib.Data.List.Nodup
import PageRegions.Proofs.FreeList.Buckets

/-!
# The invariant of a free list

A free list keeps several things twice: the bucket of a page follows from its account, the marks
follow from the pool, and the bytes in use follow from all accounts. `Inv` says that both versions
agree, and this file proves that every operation keeps it (`Inv.insertRow`, `Inv.removeRow`,
`Inv.evict`, `Inv.recycle`, `Inv.takeRecycled`).

Only one operation needs anything from outside. A row that finds no room and no pooled page goes to
an allocated page, and that page must not be one that the list has already: nothing in the list
checks it.

The bytes in use are stated as a 64-bit word, `used_eq`, because so stated they need no bound on the
number of pages. Whoever has such a bound reads an equation of naturals off it
(`Inv.used_toNat`).

## How the proofs go

Every change of an account has two halves. First the page is taken out of its bucket and its bytes
out of the count; between the halves the invariant holds of all other pages (`InvBut`). Then either
the account is closed and the page goes to the pool (`InvBut.retire`), or it gets a new account and
is put into the bucket for that (`InvBut.account`). A page without an account starts at the second
half (`Inv.but_of_none`).
-/

set_option autoImplicit false

namespace PageRegions
namespace FreeList

/-- The bytes of all accounts together. -/
def usedBytes (f : FreeList) : Nat := (f.pages.map (·.used.toNat)).sum

/-- What is kept twice agrees, no page is in two places, and no page is overfull. -/
structure Inv (f : FreeList) : Prop where
  /-- A page has one account. -/
  keyed : (f.pages.map (·.id)).Nodup
  buckets_length : f.buckets.length = bucketCount
  /-- A bucket has the data pages whose room says so, and nothing else. -/
  mem_bucket : ∀ b id,
    id ∈ f.bucket b ↔ ∃ p, f.page? id = some p ∧ f.bucketFor (f.room p) = some b
  bucket_nodup : ∀ b, (f.bucket b).Nodup
  within : ∀ p ∈ f.pages, p.used ≤ f.capacity
  pool_nodup : f.pool.Nodup
  marked_nodup : f.marked.Nodup
  mem_marked : ∀ id, id ∈ f.marked ↔ id ∈ f.pool
  apart : ∀ id ∈ f.pool, f.page? id = none
  used_eq : f.used = UInt64.ofNat f.usedBytes

theorem inv_fresh (region : String) (capacity : UInt32) : (fresh region capacity).Inv := by
  have hb : ∀ b, (fresh region capacity).bucket b = [] := by
    intro b
    by_cases h : b < bucketCount <;> simp [bucket, fresh, h]
  exact {
    keyed := List.nodup_nil
    buckets_length := rfl
    mem_bucket := fun b id => by rw [hb]; simp [page?, fresh]
    bucket_nodup := fun b => by rw [hb]; exact List.nodup_nil
    within := by simp [fresh]
    pool_nodup := List.nodup_nil
    marked_nodup := List.nodup_nil
    mem_marked := fun _ => Iff.rfl
    apart := by simp [fresh]
    used_eq := rfl }

/-! ## Accounts by id -/

/-- With one account for each page, to be a data page is to be found. -/
theorem page?_of_mem {f : FreeList} (hk : (f.pages.map (·.id)).Nodup) {p : DataPage}
    (hp : p ∈ f.pages) : f.page? p.id = some p := by
  obtain ⟨q, hq⟩ := holds_iff.mp (holds_iff_mem.mpr (List.mem_map_of_mem (f := (·.id)) hp))
  have : q = p := List.inj_on_of_nodup_map hk (mem_of_page? hq) hp (page?_id hq)
  rw [hq, this]

theorem Inv.used_le {f : FreeList} (hf : f.Inv) {id : PageId} {p : DataPage}
    (hp : f.page? id = some p) : p.used ≤ f.capacity :=
  hf.within p (mem_of_page? hp)

theorem nodup_keys_filter {l : List DataPage} (h : (l.map (·.id)).Nodup) (x : PageId) :
    ((l.filter fun q => q.id ≠ x).map (·.id)).Nodup :=
  (List.Sublist.map _ List.filter_sublist).nodup h

/-- The accounts are that of one page and those of all others. -/
theorem perm_filter_id {l : List DataPage} (hk : (l.map (·.id)).Nodup) {p : DataPage}
    (hp : p ∈ l) : (p :: l.filter fun q => q.id ≠ p.id).Perm l := by
  induction l with
  | nil => cases hp
  | cons q l ih =>
    simp only [List.map_cons, List.nodup_cons] at hk
    rcases List.mem_cons.mp hp with rfl | hp
    · have hrest : (l.filter fun q => q.id ≠ p.id) = l := by
        refine List.filter_eq_self.mpr fun q hq => ?_
        simp only [ne_eq, decide_eq_true_eq]
        intro hid
        exact hk.1 (hid ▸ List.mem_map_of_mem (f := (·.id)) hq)
      rw [List.filter_cons_of_neg (by simp), hrest]
    · have hne : q.id ≠ p.id := fun hid => hk.1 (hid ▸ List.mem_map_of_mem (f := (·.id)) hp)
      rw [List.filter_cons_of_pos (by simpa using hne)]
      exact (List.Perm.swap q p _).trans ((ih hk.2 hp).cons q)

/-- A page without an account is not among those that have one. -/
theorem filter_id_of_page?_none {f : FreeList} {id : PageId} (h : f.page? id = none) :
    (f.pages.filter fun q => q.id ≠ id) = f.pages := by
  refine List.filter_eq_self.mpr fun q hq => ?_
  have := List.find?_eq_none.mp h q hq
  simpa using this

/-- The bytes of a list are at most what its pages can hold. -/
theorem Inv.usedBytes_le {f : FreeList} (hf : f.Inv) :
    f.usedBytes ≤ f.pages.length * f.capacity.toNat := by
  have h := List.sum_le_card_nsmul (f.pages.map (·.used.toNat)) f.capacity.toNat (by
    intro n hn
    obtain ⟨p, hp, rfl⟩ := List.mem_map.mp hn
    exact UInt32.le_iff_toNat_le.mp (hf.within p hp))
  simpa [usedBytes] using h

theorem Inv.used_toNat {f : FreeList} (hf : f.Inv)
    (h : f.pages.length * f.capacity.toNat < 2 ^ 64) : f.used.toNat = f.usedBytes := by
  rw [hf.used_eq, UInt64.toNat_ofNat']
  exact Nat.mod_eq_of_lt (Nat.lt_of_le_of_lt hf.usedBytes_le h)

/-! ## Between the halves of a change -/

/-- The invariant of all pages but one, which may have an account but is in no bucket, and whose
bytes are not counted. -/
structure InvBut (f : FreeList) (x : PageId) : Prop where
  keyed : (f.pages.map (·.id)).Nodup
  buckets_length : f.buckets.length = bucketCount
  mem_bucket : ∀ b id, id ∈ f.bucket b
    ↔ id ≠ x ∧ ∃ p, f.page? id = some p ∧ f.bucketFor (f.room p) = some b
  bucket_nodup : ∀ b, (f.bucket b).Nodup
  within : ∀ p ∈ f.pages, p.id ≠ x → p.used ≤ f.capacity
  pool_nodup : f.pool.Nodup
  marked_nodup : f.marked.Nodup
  mem_marked : ∀ id, id ∈ f.marked ↔ id ∈ f.pool
  apart : ∀ id ∈ f.pool, f.page? id = none
  notMem_pool : x ∉ f.pool
  used_eq : f.used
    = UInt64.ofNat ((f.pages.filter fun q => q.id ≠ x).map (·.used.toNat)).sum

theorem Inv.but_of_none {f : FreeList} (hf : f.Inv) {x : PageId} (hx : f.page? x = none)
    (hpool : x ∉ f.pool) : f.InvBut x where
  keyed := hf.keyed
  buckets_length := hf.buckets_length
  mem_bucket b id := by
    rw [hf.mem_bucket]
    constructor
    · rintro ⟨p, hp, hb⟩
      refine ⟨?_, p, hp, hb⟩
      rintro rfl
      rw [hx] at hp
      cases hp
    · exact fun h => h.2
  bucket_nodup := hf.bucket_nodup
  within p hp _ := hf.within p hp
  pool_nodup := hf.pool_nodup
  marked_nodup := hf.marked_nodup
  mem_marked := hf.mem_marked
  apart := hf.apart
  notMem_pool := hpool
  used_eq := by rw [filter_id_of_page?_none hx]; exact hf.used_eq

/-- The first half: a page leaves its bucket and the count. -/
theorem Inv.unbucket {f : FreeList} (hf : f.Inv) {p : DataPage} (hp : f.page? p.id = some p) :
    ((f.unbucket p).withUsed (f.used - p.used.toUInt64)).InvBut p.id where
  keyed := by simpa using hf.keyed
  buckets_length := by simpa using hf.buckets_length
  mem_bucket b id := by
    have hcap : ((f.unbucket p).withUsed (f.used - p.used.toUInt64)).capacity = f.capacity := by
      simp
    simp only [withUsed_bucket, withUsed_page?, mem_bucket_unbucket, hf.mem_bucket, page?_unbucket,
      bucketFor_congr hcap, room_congr hcap]
    constructor
    · rintro ⟨⟨q, hq, hb⟩, hne⟩
      refine ⟨?_, q, hq, hb⟩
      rintro rfl
      rw [hp] at hq
      cases hq
      exact hne ⟨rfl, hb⟩
    · rintro ⟨hne, hq⟩
      exact ⟨hq, fun h => hne h.1⟩
  bucket_nodup b := nodup_bucket_unbucket (hf.bucket_nodup b)
  within q hq _ := by
    simp only [withUsed_pages, withUsed_capacity, unbucket_pages, unbucket_capacity] at hq ⊢
    exact hf.within q hq
  pool_nodup := by simpa using hf.pool_nodup
  marked_nodup := by simpa using hf.marked_nodup
  mem_marked := by simpa using hf.mem_marked
  apart id hid := by
    simp only [withUsed_pool, unbucket_pool] at hid
    rw [withUsed_page?, page?_unbucket]
    exact hf.apart id hid
  notMem_pool := by
    simp only [withUsed_pool, unbucket_pool]
    intro hpool
    rw [hf.apart _ hpool] at hp
    cases hp
  used_eq := by
    simp only [withUsed_used, withUsed_pages, unbucket_pages]
    -- The account of this page is first among all, so that its bytes are taken off the sum.
    have hsum := ((perm_filter_id hf.keyed (mem_of_page? hp)).map (·.used.toNat)).sum_eq
    rw [List.map_cons, List.sum_cons] at hsum
    rw [hf.used_eq, usedBytes, ← hsum, UInt64.ofNat_add, UInt64.ofNat_uInt32ToNat,
      UInt64.add_comm, UInt64.add_sub_cancel]

/-- The second half, for a page without rows. -/
theorem InvBut.retire {f : FreeList} {x : PageId} (hf : f.InvBut x) : (f.retire x).Inv where
  keyed := nodup_keys_filter hf.keyed x
  buckets_length := hf.buckets_length
  mem_bucket b id := by
    rw [retire_bucket, hf.mem_bucket, page?_retire]
    by_cases hid : id = x
    · simp [hid]
    · simp only [ne_eq, hid, not_false_eq_true, true_and]
      exact Iff.rfl
  bucket_nodup := hf.bucket_nodup
  within p hp := by
    rw [retire_pages, List.mem_filter] at hp
    exact hf.within p hp.1 (by simpa using hp.2)
  pool_nodup := List.nodup_cons.mpr ⟨hf.notMem_pool, hf.pool_nodup⟩
  marked_nodup := by
    change (if x ∈ f.marked then f.marked else x :: f.marked).Nodup
    split
    · exact hf.marked_nodup
    · next hm => exact List.nodup_cons.mpr ⟨hm, hf.marked_nodup⟩
  mem_marked id := by
    have hx : x ∉ f.marked := fun h => hf.notMem_pool ((hf.mem_marked x).mp h)
    change id ∈ (if x ∈ f.marked then f.marked else x :: f.marked) ↔ id ∈ x :: f.pool
    rw [if_neg hx, List.mem_cons, List.mem_cons, hf.mem_marked]
  apart id hid := by
    rw [page?_retire]
    by_cases hx : id = x
    · rw [if_pos hx]
    · rw [if_neg hx]
      rw [retire_pool, List.mem_cons] at hid
      exact hf.apart id (hid.resolve_left hx)
  used_eq := hf.used_eq

/-- The second half, for a page that gets a new account. -/
theorem InvBut.account {f : FreeList} {q : DataPage} (hf : f.InvBut q.id)
    (hq : q.used ≤ f.capacity) :
    (((f.putPage q).rebucket q).withUsed (f.used + q.used.toUInt64)).Inv where
  keyed := by
    simp only [withUsed_pages, rebucket_pages, putPage, List.map_cons, List.nodup_cons]
    exact ⟨by simp, nodup_keys_filter hf.keyed q.id⟩
  buckets_length := by simpa using hf.buckets_length
  mem_bucket b id := by
    have hcap : (((f.putPage q).rebucket q).withUsed (f.used + q.used.toUInt64)).capacity
      = f.capacity := by simp
    rw [withUsed_bucket, mem_bucket_rebucket (f := f.putPage q) hf.buckets_length hq,
      putPage_bucket, hf.mem_bucket]
    simp only [withUsed_page?, page?_rebucket, page?_putPage, bucketFor_congr hcap, room_congr hcap,
      bucketFor_congr (putPage_capacity f q), room_congr (putPage_capacity f q)]
    by_cases hid : id = q.id
    · simp [hid]
    · simp [hid]
  bucket_nodup b := nodup_bucket_rebucket (hf.bucket_nodup b)
  within p hp := by
    simp only [withUsed_pages, withUsed_capacity, rebucket_pages, rebucket_capacity,
      putPage_capacity] at hp ⊢
    rcases List.mem_cons.mp hp with rfl | hp
    · exact hq
    · rw [List.mem_filter] at hp
      exact hf.within p hp.1 (by simpa using hp.2)
  pool_nodup := by simpa using hf.pool_nodup
  marked_nodup := by simpa using hf.marked_nodup
  mem_marked := by simpa using hf.mem_marked
  apart id hid := by
    simp only [withUsed_pool, rebucket_pool, putPage_pool] at hid
    have hne : id ≠ q.id := fun h => hf.notMem_pool (by rwa [← h])
    rw [withUsed_page?, page?_rebucket, page?_putPage, if_neg hne]
    exact hf.apart id hid
  used_eq := by
    simp only [withUsed_used, usedBytes, withUsed_pages, rebucket_pages, putPage, List.map_cons,
      List.sum_cons]
    rw [hf.used_eq, UInt64.ofNat_add, UInt64.ofNat_uInt32ToNat, UInt64.add_comm]

end FreeList
end PageRegions
