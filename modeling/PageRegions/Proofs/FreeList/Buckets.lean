import Mathlib.Data.List.Nodup
import PageRegions.FreeList

/-!
# The buckets of a free list

Two things are settled here about how data pages are sorted by their room. The number of a bucket
grows with the room and stays below `bucketCount`, so that every page of a bucket above a row's own
has room for the row. And each of the four steps that operations are made of (taking a page out of
its bucket, putting it into one, setting an account, closing one) changes buckets and accounts in
one place only; what it does there is stated through `bucket` and `page?`, and nothing after this
file looks into the list of buckets itself.
-/

set_option autoImplicit false

namespace PageRegions
namespace FreeList

/-! ## Bucket numbers -/

theorem share_lt {f : FreeList} {room : UInt32} (h : room ≤ f.capacity) :
    f.share room < bucketCount := by
  have hle := UInt32.le_iff_toNat_le.mp h
  unfold share bucketCount
  exact (Nat.div_lt_iff_lt_mul (by omega)).mpr (by omega)

theorem share_mono {f : FreeList} {a b : UInt32} (h : a ≤ b) : f.share a ≤ f.share b := by
  have hle := UInt32.le_iff_toNat_le.mp h
  exact Nat.div_le_div_right (Nat.mul_le_mul_right _ hle)

/-- Room that a page can have is numbered by its share: neither the wrap-around nor the sign of a
bucket number matters. -/
theorem bucketFor_of_le {f : FreeList} {room : UInt32} (h : room ≤ f.capacity) :
    f.bucketFor room = if room = 0 then none else some (f.share room) := by
  have hlt := share_lt h
  unfold bucketCount at hlt
  unfold bucketFor
  by_cases hz : room = 0
  · rw [if_pos hz, if_pos hz]
  · have hmod : f.share room % 2 ^ 32 = f.share room := Nat.mod_eq_of_lt (by omega)
    rw [if_neg hz, if_neg hz, Nat.one_shiftLeft, Nat.one_shiftLeft, hmod]
    exact if_pos (by omega)

theorem bucketFor_lt {f : FreeList} {room : UInt32} {b : Nat} (h : room ≤ f.capacity)
    (hb : f.bucketFor room = some b) : b < bucketCount := by
  rw [bucketFor_of_le h] at hb
  split at hb
  · cases hb
  · cases hb
    exact share_lt h

@[simp]
theorem bucketFor_isSome {f : FreeList} {room : UInt32} (h : room ≤ f.capacity)
    (hz : room ≠ 0) : ∃ b, f.bucketFor room = some b :=
  ⟨f.share room, by rw [bucketFor_of_le h, if_neg hz]⟩

/-- **A page of a higher bucket has room.** Dividing keeps the order, so a strictly greater number
is a strictly greater room. -/
theorem lt_of_bucketFor_lt {f : FreeList} {a b : UInt32} {m n : Nat} (ha : a ≤ f.capacity)
    (hb : b ≤ f.capacity) (hm : f.bucketFor a = some m) (hn : f.bucketFor b = some n)
    (hlt : m < n) : a < b := by
  rw [bucketFor_of_le ha] at hm
  rw [bucketFor_of_le hb] at hn
  split at hm
  · cases hm
  · split at hn
    · cases hn
    · cases hm
      cases hn
      by_contra hc
      exact absurd (share_mono (f := f) (UInt32.not_lt.mp hc)) (Nat.not_le.mpr hlt)

theorem room_toNat {f : FreeList} {p : DataPage} (h : p.used ≤ f.capacity) :
    (f.room p).toNat = f.capacity.toNat - p.used.toNat :=
  UInt32.toNat_sub_of_le _ _ h

theorem room_le {f : FreeList} {p : DataPage} (h : p.used ≤ f.capacity) :
    f.room p ≤ f.capacity := by
  rw [UInt32.le_iff_toNat_le, room_toNat h]
  exact Nat.sub_le _ _

/-- Only a full page has no room. -/
theorem room_eq_zero_iff {f : FreeList} {p : DataPage} (h : p.used ≤ f.capacity) :
    f.room p = 0 ↔ p.used = f.capacity := by
  have hle := UInt32.le_iff_toNat_le.mp h
  rw [← UInt32.toNat_inj, ← UInt32.toNat_inj, room_toNat h, UInt32.toNat_zero]
  omega

/-! ## Fields that a step leaves alone -/

section Fields

variable (f : FreeList) (p : DataPage) (id : PageId)

@[simp] theorem unbucket_capacity : (f.unbucket p).capacity = f.capacity := by
  unfold unbucket; split <;> rfl

@[simp] theorem unbucket_pages : (f.unbucket p).pages = f.pages := by
  unfold unbucket; split <;> rfl

@[simp] theorem unbucket_pool : (f.unbucket p).pool = f.pool := by
  unfold unbucket; split <;> rfl

@[simp] theorem unbucket_marked : (f.unbucket p).marked = f.marked := by
  unfold unbucket; split <;> rfl

@[simp] theorem unbucket_used : (f.unbucket p).used = f.used := by
  unfold unbucket; split <;> rfl

@[simp] theorem unbucket_buckets_length :
    (f.unbucket p).buckets.length = f.buckets.length := by
  unfold unbucket; split <;> simp

@[simp] theorem rebucket_capacity : (f.rebucket p).capacity = f.capacity := by
  unfold rebucket; split <;> rfl

@[simp] theorem rebucket_pages : (f.rebucket p).pages = f.pages := by
  unfold rebucket; split <;> rfl

@[simp] theorem rebucket_pool : (f.rebucket p).pool = f.pool := by
  unfold rebucket; split <;> rfl

@[simp] theorem rebucket_marked : (f.rebucket p).marked = f.marked := by
  unfold rebucket; split <;> rfl

@[simp] theorem rebucket_used : (f.rebucket p).used = f.used := by
  unfold rebucket; split <;> rfl

@[simp] theorem rebucket_buckets_length :
    (f.rebucket p).buckets.length = f.buckets.length := by
  unfold rebucket; split <;> simp

@[simp] theorem putPage_capacity : (f.putPage p).capacity = f.capacity := rfl

@[simp] theorem putPage_pool : (f.putPage p).pool = f.pool := rfl

@[simp] theorem putPage_marked : (f.putPage p).marked = f.marked := rfl

@[simp] theorem putPage_used : (f.putPage p).used = f.used := rfl

@[simp] theorem putPage_buckets : (f.putPage p).buckets = f.buckets := rfl

@[simp] theorem putPage_bucket (b : Nat) : (f.putPage p).bucket b = f.bucket b := rfl

@[simp] theorem retire_capacity : (f.retire id).capacity = f.capacity := rfl

@[simp] theorem retire_pages : (f.retire id).pages = f.pages.filter fun q => q.id ≠ id := rfl

@[simp] theorem retire_pool : (f.retire id).pool = id :: f.pool := rfl

@[simp] theorem retire_bucket (b : Nat) : (f.retire id).bucket b = f.bucket b := rfl

/-- The list with another count of bytes. -/
def withUsed (used : UInt64) : FreeList := { f with used := used }

variable (used : UInt64)

@[simp] theorem withUsed_capacity : (f.withUsed used).capacity = f.capacity := rfl

@[simp] theorem withUsed_pages : (f.withUsed used).pages = f.pages := rfl

@[simp] theorem withUsed_buckets : (f.withUsed used).buckets = f.buckets := rfl

@[simp] theorem withUsed_bucket (b : Nat) : (f.withUsed used).bucket b = f.bucket b := rfl

@[simp] theorem withUsed_page? : (f.withUsed used).page? id = f.page? id := rfl

@[simp] theorem withUsed_pool : (f.withUsed used).pool = f.pool := rfl

@[simp] theorem withUsed_marked : (f.withUsed used).marked = f.marked := rfl

@[simp] theorem withUsed_used : (f.withUsed used).used = used := rfl

@[simp] theorem withUsed_withUsed (more : UInt64) :
    (f.withUsed used).withUsed more = f.withUsed more := rfl

theorem putPage_withUsed : (f.withUsed used).putPage p = (f.putPage p).withUsed used := rfl

/-- The count of bytes has no say in where a page is put. -/
theorem rebucket_withUsed : (f.withUsed used).rebucket p = (f.rebucket p).withUsed used := by
  have hsame : (f.withUsed used).bucketFor ((f.withUsed used).room p) = f.bucketFor (f.room p) :=
    rfl
  unfold rebucket
  rw [hsame]
  cases f.bucketFor (f.room p) <;> rfl

end Fields

/-- What bucket a room falls into hangs on the capacity alone. -/
theorem bucketFor_congr {f g : FreeList} (h : g.capacity = f.capacity) (room : UInt32) :
    g.bucketFor room = f.bucketFor room := by
  have hs : g.share room = f.share room := by rw [share, share, h]
  rw [bucketFor, bucketFor, hs]

theorem room_congr {f g : FreeList} (h : g.capacity = f.capacity) (p : DataPage) :
    g.room p = f.room p := by
  simp only [room, h]

/-! ## What a step does to buckets -/

theorem getD_modify {α : Type} (l : List (List α)) (g : List α → List α) (c b : Nat) :
    (l.modify c g).getD b [] = if c = b ∧ b < l.length then g (l.getD b []) else l.getD b [] := by
  simp only [List.getD_eq_getElem?_getD, List.getElem?_modify]
  by_cases hb : b < l.length
  · by_cases hc : c = b <;> simp [hb, hc]
  · simp [hb]

theorem mem_bucket_unbucket {f : FreeList} {p : DataPage} {b : Nat} {id : PageId} :
    id ∈ (f.unbucket p).bucket b
      ↔ id ∈ f.bucket b ∧ ¬ (id = p.id ∧ f.bucketFor (f.room p) = some b) := by
  unfold unbucket
  split
  · next hn => simp [hn]
  · next c hc =>
    simp only [bucket, getD_modify, hc, Option.some.injEq]
    by_cases hb : c = b ∧ b < f.buckets.length
    · rw [if_pos hb]
      simp [hb.1]
    · rw [if_neg hb]
      constructor
      · intro hid
        -- A bucket that has a page is one of the list.
        refine ⟨hid, fun ⟨_, hcb⟩ => hb ⟨hcb, ?_⟩⟩
        by_contra hlen
        rw [List.getD_eq_getElem?_getD, List.getElem?_eq_none (Nat.not_lt.mp hlen)] at hid
        exact absurd hid (by simp)
      · exact fun h => h.1

theorem mem_bucket_rebucket {f : FreeList} {p : DataPage} {b : Nat} {id : PageId}
    (hlen : f.buckets.length = bucketCount) (hp : p.used ≤ f.capacity) :
    id ∈ (f.rebucket p).bucket b
      ↔ id ∈ f.bucket b ∨ (id = p.id ∧ f.bucketFor (f.room p) = some b) := by
  unfold rebucket
  split
  · next hn => simp [hn]
  · next c hc =>
    have hlt := bucketFor_lt (room_le hp) hc
    simp only [bucket, getD_modify, hc, Option.some.injEq]
    by_cases hb : c = b
    · subst hb
      rw [if_pos ⟨rfl, by rw [hlen]; exact hlt⟩]
      split
      · next hmem =>
        constructor
        · exact Or.inl
        · rintro (hid | ⟨rfl, -⟩)
          · exact hid
          · exact hmem
      · rw [List.mem_cons]
        constructor
        · rintro (rfl | hid)
          · exact Or.inr ⟨rfl, rfl⟩
          · exact Or.inl hid
        · rintro (hid | ⟨rfl, -⟩)
          · exact Or.inr hid
          · exact Or.inl rfl
    · rw [if_neg fun h => hb h.1]
      simp [hb]

theorem nodup_bucket_unbucket {f : FreeList} {p : DataPage} {b : Nat}
    (h : (f.bucket b).Nodup) : ((f.unbucket p).bucket b).Nodup := by
  unfold unbucket
  split
  · exact h
  · simp only [bucket, getD_modify]
    split
    · exact h.filter _
    · exact h

theorem nodup_bucket_rebucket {f : FreeList} {p : DataPage} {b : Nat}
    (h : (f.bucket b).Nodup) : ((f.rebucket p).bucket b).Nodup := by
  unfold rebucket
  split
  · exact h
  · simp only [bucket, getD_modify]
    split
    · split
      · exact h
      · next hmem => exact List.nodup_cons.mpr ⟨hmem, h⟩
    · exact h

/-! ## What a step does to accounts -/

theorem page?_id {f : FreeList} {id : PageId} {p : DataPage} (h : f.page? id = some p) :
    p.id = id := by
  simpa using List.find?_some h

theorem mem_of_page? {f : FreeList} {id : PageId} {p : DataPage} (h : f.page? id = some p) :
    p ∈ f.pages :=
  List.mem_of_find?_eq_some h

theorem page?_congr {f g : FreeList} (h : g.pages = f.pages) (id : PageId) :
    g.page? id = f.page? id := by
  simp only [page?, h]

theorem find?_filter_id (l : List DataPage) (x id : PageId) :
    (l.filter fun q => q.id ≠ x).find? (fun q => q.id = id)
      = if id = x then none else l.find? fun q => q.id = id := by
  induction l with
  | nil => simp
  | cons q l ih =>
    by_cases hq : q.id = x
    · subst hq
      rw [List.filter_cons_of_neg (by simp), ih]
      by_cases hid : id = q.id
      · rw [if_pos hid, if_pos hid]
      · rw [if_neg hid, if_neg hid, List.find?_cons_of_neg (by simpa using Ne.symm hid)]
    · rw [List.filter_cons_of_pos (by simpa using hq)]
      by_cases hid : q.id = id
      · subst hid
        rw [if_neg hq, List.find?_cons_of_pos (by simp), List.find?_cons_of_pos (by simp)]
      · rw [List.find?_cons_of_neg (by simpa using hid), ih,
          List.find?_cons_of_neg (by simpa using hid)]

theorem page?_putPage (f : FreeList) (q : DataPage) (id : PageId) :
    (f.putPage q).page? id = if id = q.id then some q else f.page? id := by
  unfold page? putPage
  by_cases hid : q.id = id
  · rw [List.find?_cons_of_pos (by simpa using hid), if_pos hid.symm]
  · rw [List.find?_cons_of_neg (by simpa using hid), find?_filter_id,
      if_neg (Ne.symm hid), if_neg (Ne.symm hid)]

theorem page?_retire (f : FreeList) (x id : PageId) :
    (f.retire x).page? id = if id = x then none else f.page? id := by
  unfold page?
  rw [retire_pages, find?_filter_id]

@[simp]
theorem page?_unbucket (f : FreeList) (p : DataPage) (id : PageId) :
    (f.unbucket p).page? id = f.page? id :=
  page?_congr (unbucket_pages f p) id

@[simp]
theorem page?_rebucket (f : FreeList) (p : DataPage) (id : PageId) :
    (f.rebucket p).page? id = f.page? id :=
  page?_congr (rebucket_pages f p) id

theorem holds_iff {f : FreeList} {id : PageId} :
    f.holds id = true ↔ ∃ p, f.page? id = some p := by
  rw [holds, Option.isSome_iff_exists]

theorem holds_iff_mem {f : FreeList} {id : PageId} :
    f.holds id = true ↔ id ∈ f.pages.map (·.id) := by
  rw [holds_iff, List.mem_map]
  constructor
  · rintro ⟨p, hp⟩
    exact ⟨p, mem_of_page? hp, page?_id hp⟩
  · rintro ⟨p, hp, rfl⟩
    rw [← Option.isSome_iff_exists, page?, List.find?_isSome]
    exact ⟨p, hp, by simp⟩

end FreeList
end PageRegions
