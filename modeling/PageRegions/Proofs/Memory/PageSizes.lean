import Mathlib.Order.CompletePartialOrder
import Mathlib.Order.Interval.Set.Disjoint
import PageRegions.Proofs.Memory.Ledger

/-!
# The size of a page with its header

The size of a page is given to page memory when it is made, and stays whatever is asked of it
afterwards (`SameSizes`). With the header it is the distance from one page of a segment to the next,
and the number that sizes of memory are divided by. It is a 32-bit word, and nothing keeps a page
from being so large that there is no room in that word for the header, too.

Where there is, the bytes of different pages are apart (`Spaced`). Where there is not, the word is
smaller than a header: neighbouring pages share bytes, and for one size of pages the word is zero
(`Wrapped`).
-/

set_option autoImplicit false

namespace PageRegions
namespace PageMemory

/-- Page memory that was made with the same sizes. -/
structure SameSizes (m m' : PageMemory) : Prop where
  pageSize : m'.pageSize = m.pageSize
  initialSize : m'.initialSize = m.initialSize
  maxSize : m'.maxSize = m.maxSize

namespace SameSizes

variable {m m' m'' : PageMemory}

theorem refl (m : PageMemory) : SameSizes m m := ⟨rfl, rfl, rfl⟩

theorem trans (hm : SameSizes m m') (hm' : SameSizes m' m'') : SameSizes m m'' :=
  ⟨hm'.pageSize.trans hm.pageSize, hm'.initialSize.trans hm.initialSize,
    hm'.maxSize.trans hm.maxSize⟩

theorem systemPageSize (hm : SameSizes m m') : m'.systemPageSize = m.systemPageSize := by
  unfold PageMemory.systemPageSize
  rw [hm.pageSize]

end SameSizes

/-! ## What page memory can be asked for -/

theorem mapNext_sameSizes (m : PageMemory) (h : Host) : SameSizes m (m.mapNext h).2.1 := by
  unfold mapNext
  rcases m.provider.next h with ⟨_ | _, p, k⟩ <;> exact ⟨rfl, rfl, rfl⟩

theorem mapUntilUnused_sameSizes (m : PageMemory) (h : Host) :
    SameSizes m (m.mapUntilUnused h).2.1 := by
  fun_induction m.mapUntilUnused h with
  | case1 m h hunused => exact .refl m
  | case2 m h hfull fault m₁ h₁ hnext =>
    have hsame := m.mapNext_sameSizes h
    rw [hnext] at hsame
    exact hsame
  | case3 m h hfull m₁ h₁ hnext ih =>
    have hsame := m.mapNext_sameSizes h
    rw [hnext] at hsame
    exact hsame.trans ih

theorem start_sameSizes (m : PageMemory) (h : Host) : SameSizes m (m.start h).2.1 := by
  unfold start
  by_cases hstarted : m.started = true
  · rw [if_pos hstarted]
    exact .refl m
  · rw [if_neg hstarted]
    rcases m.provider.announce (Segments.sizes m.initialSize m.maxSize) h with ⟨_ | _, p, k⟩
    · exact ⟨rfl, rfl, rfl⟩
    · have hsame := ({ m with provider := p } : PageMemory).mapNext_sameSizes k
      simp only
      generalize ({ m with provider := p } : PageMemory).mapNext k = out at hsame
      obtain ⟨_ | _, m', k'⟩ := out
      · exact ⟨hsame.pageSize, hsame.initialSize, hsame.maxSize⟩
      · exact ⟨hsame.pageSize, hsame.initialSize, hsame.maxSize⟩

theorem stop_sameSizes (m : PageMemory) (h : Host) : SameSizes m (m.stop h).2.1 := by
  unfold stop
  split <;> exact ⟨rfl, rfl, rfl⟩

theorem allocate_sameSizes (m : PageMemory) (h : Host) : SameSizes m (m.allocate h).2.1 := by
  unfold allocate
  by_cases hstarted : m.started = true
  · rw [if_neg (by rw [hstarted]; exact Bool.false_ne_true)]
    split
    · exact ⟨rfl, rfl, rfl⟩
    · have hsame := m.mapUntilUnused_sameSizes h
      generalize m.mapUntilUnused h = out at hsame
      obtain ⟨_ | _, m', k⟩ := out
      · simp only
        split <;> exact hsame
      · exact ⟨hsame.pageSize, hsame.initialSize, hsame.maxSize⟩
  · rw [Bool.not_eq_true] at hstarted
    rw [if_pos (by rw [hstarted]; rfl)]
    exact .refl m

theorem free_sameSizes (m : PageMemory) (page : PageId) (h : Host) :
    SameSizes m (m.free page h).2.1 := by
  unfold free
  split <;> exact ⟨rfl, rfl, rfl⟩

/-- What becomes of page memory when something is asked of it. -/
inductive Step (m : PageMemory) : PageMemory → Prop
  | same : Step m m
  | start (h : Host) : Step m (m.start h).2.1
  | stop (h : Host) : Step m (m.stop h).2.1
  | allocate (h : Host) : Step m (m.allocate h).2.1
  | free (page : PageId) (h : Host) : Step m (m.free page h).2.1

theorem Step.sameSizes {m m' : PageMemory} (hstep : Step m m') : SameSizes m m' := by
  cases hstep with
  | same => exact .refl m
  | start h => exact m.start_sameSizes h
  | stop h => exact m.stop_sameSizes h
  | allocate h => exact m.allocate_sameSizes h
  | free page h => exact m.free_sameSizes page h

/-! ## Pages side by side -/

variable {m : PageMemory}

/-- The bytes of a page in the block of its segment. They come behind its header. -/
def payload (m : PageMemory) (page : PageId) : Set Nat :=
  Set.Ico (page.index.toNat * m.systemPageSize.toNat + headerSize.toNat)
    (page.index.toNat * m.systemPageSize.toNat + headerSize.toNat + m.pageSize.toNat)

/-- They begin where a caller is told that they do. -/
theorem payload_of_address? {h : Host} {page : PageId} {block address : Nat}
    (haddress : m.address? h page = some (block, address)) :
    m.payload page = Set.Ico address (address + m.pageSize.toNat) := by
  obtain ⟨start, hpage, -, rfl⟩ := address?_eq_some.mp haddress
  obtain ⟨segment, -, -, -, hout⟩ := header?_eq_some.mp hpage
  rw [(Prod.mk.inj hout).2]
  rfl

/-- Page memory whose pages, with their headers, have a size that fits in its word. -/
structure Spaced (m : PageMemory) : Prop where
  sum : m.systemPageSize.toNat = m.pageSize.toNat + 24
  ne_zero : m.systemPageSize ≠ 0
  greater : m.pageSize < m.systemPageSize
  apart : ∀ page page' : PageId, page ≠ page' → page.segment = page'.segment →
    Disjoint (m.payload page) (m.payload page')

/-- Page memory whose pages do not. -/
structure Wrapped (m : PageMemory) : Prop where
  sum : m.systemPageSize.toNat + 2 ^ 32 = m.pageSize.toNat + 24
  eq_zero : m.systemPageSize = 0 ↔ m.pageSize.toNat + 24 = 2 ^ 32
  less : m.systemPageSize < m.pageSize
  overlap : ∀ page page' : PageId, page.segment = page'.segment →
    page'.index.toNat = page.index.toNat + 1 → ¬ Disjoint (m.payload page) (m.payload page')

theorem systemPageSize_toNat (m : PageMemory) :
    m.systemPageSize.toNat = (m.pageSize.toNat + 24) % 2 ^ 32 := by
  unfold systemPageSize
  rw [UInt32.toNat_add]
  rfl

/-- Pages that stand a whole page apart share no byte. -/
theorem payload_disjoint_of_lt {page page' : PageId}
    (hle : m.pageSize.toNat ≤ m.systemPageSize.toNat)
    (hlt : page.index.toNat < page'.index.toNat) :
    Disjoint (m.payload page) (m.payload page') := by
  have hstep := Nat.mul_le_mul_right m.systemPageSize.toNat hlt
  rw [Nat.succ_mul] at hstep
  rw [Set.disjoint_left]
  intro byte hbyte hbyte'
  have hbelow := (Set.mem_Ico.mp hbyte).2
  have habove := (Set.mem_Ico.mp hbyte').1
  omega

theorem spaced_of_fits (hsize : m.pageSize.toNat + 24 < 2 ^ 32) : m.Spaced := by
  have hsum : m.systemPageSize.toNat = m.pageSize.toNat + 24 := by
    rw [systemPageSize_toNat, Nat.mod_eq_of_lt hsize]
  refine {
    sum := hsum
    ne_zero := fun hzero => ?_
    greater := by
      rw [UInt32.lt_iff_toNat_lt, hsum]
      exact Nat.lt_add_of_pos_right (by decide)
    apart := fun page page' hne hsegment => ?_ }
  · rw [hzero] at hsum
    exact absurd hsum (Nat.ne_of_lt (Nat.succ_pos _))
  · have hle : m.pageSize.toNat ≤ m.systemPageSize.toNat := by
      rw [hsum]
      exact Nat.le_add_right _ _
    rcases Nat.lt_trichotomy page.index.toNat page'.index.toNat with hlt | heq | hgt
    · exact payload_disjoint_of_lt hle hlt
    · exact absurd (congrArg₂ PageId.mk hsegment (UInt32.toNat_inj.mp heq)) hne
    · exact (payload_disjoint_of_lt hle hgt).symm

theorem wrapped_of_not_fits (hsize : 2 ^ 32 ≤ m.pageSize.toNat + 24) : m.Wrapped := by
  have hlt := m.pageSize.toNat_lt
  have hsum : m.systemPageSize.toNat + 2 ^ 32 = m.pageSize.toNat + 24 := by
    rw [systemPageSize_toNat]
    omega
  refine {
    sum := hsum
    eq_zero := ?_
    less := by
      rw [UInt32.lt_iff_toNat_lt]
      omega
    overlap := fun page page' _ hnext hdisjoint => ?_ }
  · rw [← UInt32.toNat_inj, UInt32.toNat_zero]
    omega
  -- The first byte of the next page is one of the page, too.
  · have hstep : page'.index.toNat * m.systemPageSize.toNat
        = page.index.toNat * m.systemPageSize.toNat + m.systemPageSize.toNat := by
      rw [hnext, Nat.succ_mul]
    have hfirst : page'.index.toNat * m.systemPageSize.toNat + headerSize.toNat
        ∈ m.payload page' := Set.mem_Ico.mpr ⟨Nat.le_refl _, by omega⟩
    refine Set.disjoint_left.mp hdisjoint (Set.mem_Ico.mpr ⟨?_, ?_⟩) hfirst
    · omega
    · omega

/-- **Page sizes are safe just if there is room for the header in their word.** -/
theorem spaced_iff : m.Spaced ↔ m.pageSize.toNat + 24 < 2 ^ 32 := by
  constructor
  · intro hspaced
    rw [← hspaced.sum]
    exact m.systemPageSize.toNat_lt
  · exact spaced_of_fits

end PageMemory
end PageRegions
