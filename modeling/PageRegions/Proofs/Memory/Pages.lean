import Mathlib.Algebra.Group.Action.Defs
import Mathlib.Algebra.GroupWithZero.Nat
import Mathlib.Algebra.Order.BigOperators.Group.List
import PageRegions.Proofs.Memory.Blocks

/-!
# Where page memory stands

New pages are handed out upwards: through the pages of a segment, and through the segments. `Layout`
says where page memory stands and that its segments are what their chunks are cut into. The number
of pages behind the position is `handedOut`, and the number of pages that can be handed out
altogether is `total`.

The pages of a region go from page memory to its free list and never back. Of page memory that is
used like that `Inv` says more: the count of loaded pages is the number of pages behind the
position, and all of those are marked. So whether a page is allocated can be read from the position
alone (`isAllocated_eq`).
-/

set_option autoImplicit false

namespace PageRegions
namespace PageMemory

/-! ## Positions -/

theorem header?_eq_some {m : PageMemory} {page : PageId} {out : Nat × Nat} :
    m.header? page = some out ↔ ∃ segment, m.segments[page.segment.toNat]? = some segment
      ∧ page.index.toNat < segment.pages
      ∧ (page.segment.toNat + 1 = m.segments.length → page.index.toNat < m.nextIndex)
      ∧ out = (segment.block, page.index.toNat * m.systemPageSize.toNat) := by
  unfold header?
  cases hseg : m.segments[page.segment.toNat]? with
  | none => exact ⟨nofun, fun ⟨_, h, _⟩ => nomatch h⟩
  | some segment =>
    by_cases hin : page.index.toNat < segment.pages
    · by_cases hnext : page.segment.toNat + 1 = m.segments.length ∧ m.nextIndex ≤ page.index.toNat
      · simp only [Nat.not_le.mpr hin, if_false, if_pos hnext]
        refine ⟨nofun, fun ⟨_, _, _, hlt, _⟩ => ?_⟩
        exact absurd (hlt hnext.1) (Nat.not_lt.mpr hnext.2)
      · simp only [Nat.not_le.mpr hin, if_false, if_neg hnext]
        rw [not_and, Nat.not_le] at hnext
        constructor
        · intro h
          cases h
          exact ⟨segment, rfl, hin, hnext, rfl⟩
        · rintro ⟨_, h, -, -, rfl⟩
          cases h
          rfl
    · simp only [Nat.not_lt.mp hin, if_true]
      refine ⟨nofun, fun ⟨_, h, hlt, _⟩ => ?_⟩
      cases h
      exact absurd hlt hin

/-- The first page that was not handed out, or would be the first if there were more. -/
def nextPage (m : PageMemory) : PageId :=
  ⟨UInt32.ofNat (m.segments.length - 1), UInt32.ofNat m.nextIndex⟩

/-- The number of pages of the last segment, or zero if there is none. -/
def lastPages (m : PageMemory) : Nat := (m.segments.getLast?.map (·.pages)).getD 0

/-- The number of pages behind the position. -/
def handedOut (m : PageMemory) : Nat := (m.segments.dropLast.map (·.pages)).sum + m.nextIndex

/-- The number of pages that all chunks hold together. -/
def total (m : PageMemory) : Nat := (m.provider.chunks.map m.pagesIn).sum

theorem hasUnused_iff {m : PageMemory} : m.hasUnused = true ↔ m.nextIndex < m.lastPages := by
  unfold hasUnused lastPages
  cases m.segments.getLast? with
  | none => exact ⟨nofun, fun h => absurd h (Nat.not_lt_zero _)⟩
  | some segment => exact decide_eq_true_iff

theorem pagesIn_lt (m : PageMemory) (size : UInt64) : m.pagesIn size < 2 ^ 32 := by
  unfold pagesIn
  rw [Nat.one_shiftLeft]
  exact Nat.mod_lt _ (by decide)

/-! ## The layout -/

/-- Page memory whose segments are cut from the first of its chunks, started or not. -/
structure Layout (m : PageMemory) : Prop where
  size : m.pageSize.toNat + 24 < 2 ^ 32
  few : m.provider.chunks.length ≤ 16
  mapped : m.provider.mappings.length = m.segments.length
  mapped_le : m.segments.length ≤ m.provider.chunks.length
  /-- The segments hold as many pages as their chunks do. -/
  sized : m.segments.map (·.pages) = (m.provider.chunks.take m.segments.length).map m.pagesIn
  next_le : m.nextIndex ≤ m.lastPages

variable {m : PageMemory} {h : Host}

theorem Layout.systemPageSize_eq (hm : m.Layout) :
    m.systemPageSize.toNat = m.pageSize.toNat + 24 := by
  unfold PageMemory.systemPageSize
  rw [UInt32.toNat_add, show headerSize.toNat = 24 from rfl, Nat.mod_eq_of_lt hm.size]

theorem sum_dropLast (m : PageMemory) :
    (m.segments.dropLast.map (·.pages)).sum + m.lastPages = (m.segments.map (·.pages)).sum := by
  unfold lastPages
  cases hlast : m.segments.getLast? with
  | none => simp [List.getLast?_eq_none_iff.mp hlast]
  | some segment =>
    conv_rhs => rw [← List.dropLast_append_getLast? segment hlast]
    simp

theorem Layout.sum_segments (hm : m.Layout) :
    (m.segments.map (·.pages)).sum
      + ((m.provider.chunks.drop m.segments.length).map m.pagesIn).sum = m.total := by
  rw [hm.sized, ← List.sum_append, ← List.map_append, List.take_append_drop]
  rfl

theorem Layout.handedOut_le (hm : m.Layout) : m.handedOut ≤ m.total := by
  have hsum := hm.sum_segments
  have hlast := m.sum_dropLast
  have hnext := hm.next_le
  unfold handedOut
  omega

/-- All chunks are mapped and all pages handed out just if the total is reached. -/
theorem Layout.handedOut_eq (hm : m.Layout) (hall : m.segments.length = m.provider.chunks.length)
    (hused : m.nextIndex = m.lastPages) : m.handedOut = m.total := by
  have hsum := hm.sum_segments
  have hlast := m.sum_dropLast
  rw [hall, List.drop_length] at hsum
  unfold handedOut
  simp only [List.map_nil, List.sum_nil] at hsum
  omega

/-- There are far fewer pages than the count of them can express. -/
theorem Layout.total_lt (hm : m.Layout) : m.total < 2 ^ 37 := by
  have hle := List.sum_le_card_nsmul (m.provider.chunks.map m.pagesIn) (2 ^ 32) fun n hn => by
    obtain ⟨size, -, rfl⟩ := List.mem_map.mp hn
    exact Nat.le_of_lt (m.pagesIn_lt size)
  rw [List.length_map, smul_eq_mul] at hle
  have hfew := hm.few
  unfold total
  omega

/-! ## The invariant -/

/-- Page memory that no page was given back to, started or not. -/
structure Inv (m : PageMemory) (h : Host) : Prop extends Layout m where
  recycled : m.recycled = []
  loaded : m.loaded.toNat = m.handedOut
  marked : ∀ page block address, m.header? page = some (block, address) →
    isMarked h block address = true

/-- A page is allocated just if it is behind the position. -/
theorem Inv.isAllocated_eq (hm : m.Inv h) (page : PageId) :
    m.isAllocated h page = (m.header? page).isSome := by
  unfold isAllocated address?
  cases hpage : m.header? page with
  | none => rfl
  | some out =>
    have hmarked := hm.marked page out.1 out.2 hpage
    unfold isMarked at hmarked
    simp only [hmarked, if_true]
    rfl

/-- Only the bytes of its own segments matter. -/
theorem Inv.congr_host (hm : m.Inv h) {k : Host}
    (hsame : ∀ s ∈ m.segments, k.block s.block = h.block s.block) : m.Inv k :=
  { hm with
    marked := fun page block address hpage => by
      obtain ⟨segment, hseg, -, -, hout⟩ := header?_eq_some.mp hpage
      have hmarked := hm.marked page block address hpage
      cases hout
      unfold isMarked at hmarked ⊢
      rw [hsame segment (List.mem_of_getElem? hseg)]
      exact hmarked }

end PageMemory
end PageRegions
