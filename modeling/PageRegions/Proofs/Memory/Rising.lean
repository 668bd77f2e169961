import PageRegions.Proofs.Memory.Onward

/-!
# The count of loaded pages rises

Page memory counts the pages that it hands out, in a word that nothing keeps from wrapping. But page
memory to which no page is given back hands out each page once, and there are fewer pages than the
word can count, by far: a page's index is half a word, and there are sixteen segments at most. So
the count stands below the position of page memory (`Tallied`), it never wraps, and allocating never
makes it fall.
-/

set_option autoImplicit false

namespace PageRegions
namespace PageMemory

/-- Page memory that has handed out no more pages than there are behind its position, with each
segment counted as a full one. -/
structure Tallied (m : PageMemory) : Prop where
  onward : m.Onward
  loaded_le : m.loaded.toNat ≤ m.segments.length * 2 ^ 32 + m.nextIndex
  next_le : m.nextIndex ≤ 2 ^ 32

variable {m m' : PageMemory} {h k : Host}

/-- The count is far from the greatest word. -/
theorem Tallied.loaded_lt (hm : m.Tallied) : m.loaded.toNat + 1 < 2 ^ 64 := by
  have hfew := hm.onward.few
  have hloaded := hm.loaded_le
  have hnext := hm.next_le
  unfold Segments.most at hfew
  omega

/-! ## Mapping segments -/

theorem mapNext_position (m : PageMemory) (h : Host) : (m.mapNext h).2.1.loaded = m.loaded
    ∧ ((m.mapNext h).2.1.segments = m.segments ∧ (m.mapNext h).2.1.nextIndex = m.nextIndex
      ∨ (m.mapNext h).2.1.segments.length = m.segments.length + 1
        ∧ (m.mapNext h).2.1.nextIndex = 0) := by
  unfold mapNext
  rcases m.provider.next h with ⟨_ | mapping, provider, k⟩
  · exact ⟨rfl, Or.inl ⟨rfl, rfl⟩⟩
  · exact ⟨rfl, Or.inr ⟨List.length_append, rfl⟩⟩

theorem Tallied.mapNext (hm : m.Tallied) (h : Host) :
    (m.mapNext h).2.1.Tallied ∧ (m.mapNext h).2.1.loaded = m.loaded := by
  obtain ⟨hloaded, hposition⟩ := m.mapNext_position h
  have honward := (hm.onward.mapNext h).onward
  refine ⟨?_, hloaded⟩
  have hle := hm.loaded_le
  have hnext := hm.next_le
  rcases hposition with ⟨hsegments, hindex⟩ | ⟨hsegments, hindex⟩
  · refine ⟨honward, ?_, ?_⟩
    · rw [hloaded, hsegments, hindex]
      exact hle
    · rw [hindex]
      exact hnext
  -- The rest of the last segment is passed over, and it is no more than a full segment.
  · refine ⟨honward, ?_, ?_⟩
    · rw [hloaded, hsegments, hindex, Nat.succ_mul, Nat.add_zero]
      exact hle.trans (Nat.add_le_add_left hnext _)
    · rw [hindex]
      exact Nat.zero_le _

theorem Tallied.mapUntilUnused (hm : m.Tallied) (h : Host) :
    (m.mapUntilUnused h).2.1.Tallied ∧ (m.mapUntilUnused h).2.1.loaded = m.loaded := by
  fun_induction m.mapUntilUnused h with
  | case1 m h hunused => exact ⟨hm, rfl⟩
  | case2 m h hfull fault m₁ h₁ hnext =>
    have hstep := hm.mapNext h
    rw [hnext] at hstep
    exact hstep
  | case3 m h hfull m₁ h₁ hnext ih =>
    have hstep := hm.mapNext h
    rw [hnext] at hstep
    exact ⟨(ih hstep.1).1, (ih hstep.1).2.trans hstep.2⟩

/-! ## Allocating a page -/

/-- **Allocating adds one to the count, or nothing.** -/
theorem Tallied.allocate (hm : m.Tallied) (h : Host) :
    (m.allocate h).2.1.Tallied ∧ m.loaded.toNat ≤ (m.allocate h).2.1.loaded.toNat := by
  have honward := (hm.onward.allocate h).1.onward
  have hmap := hm.mapUntilUnused h
  unfold PageMemory.allocate at honward ⊢
  by_cases hstarted : m.started = true
  swap
  · rw [if_pos (by simpa using hstarted)]
    exact ⟨hm, Nat.le_refl _⟩
  rw [if_neg (by simp [hstarted]), hm.onward.recycled] at honward ⊢
  simp only at honward ⊢
  rcases hout : m.mapUntilUnused h with ⟨fault | _, m₁, k⟩ <;> rw [hout] at hmap honward
  · obtain ⟨htallied, hloaded⟩ := hmap
    simp only
    split <;> exact ⟨htallied, Nat.le_of_eq (congrArg UInt64.toNat hloaded.symm)⟩
  · obtain ⟨htallied, hloaded⟩ : m₁.Tallied ∧ m₁.loaded = m.loaded := hmap
    obtain ⟨-, hindex⟩ := htallied.onward.nextPage_toNat (mapUntilUnused_hasUnused hout)
    have hlt := m₁.nextPage.index.toNat_lt
    have hone : (m₁.loaded + 1).toNat = m₁.loaded.toNat + 1 := by
      have hroom := htallied.loaded_lt
      rw [UInt64.toNat_add, UInt64.toNat_one, Nat.mod_eq_of_lt hroom]
    have hle := htallied.loaded_le
    refine ⟨⟨honward, ?_, ?_⟩, ?_⟩
    · change (m₁.loaded + 1).toNat ≤ m₁.segments.length * 2 ^ 32 + (m₁.nextIndex + 1)
      omega
    · change m₁.nextIndex + 1 ≤ 2 ^ 32
      omega
    · change m.loaded.toNat ≤ (m₁.loaded + 1).toNat
      rw [hone, ← hloaded]
      exact Nat.le_succ _

/-! ## Before the first page -/

/-- Page memory that has handed out no page since it was started, or since it was made. -/
structure Unread (m : PageMemory) : Prop where
  loaded : m.loaded = 0
  next : m.nextIndex = 0

theorem unread_fresh (o : RegionOptions) (pageSize : UInt32) (backing : Backing) :
    (fresh o pageSize backing).Unread := ⟨rfl, rfl⟩

theorem Unread.mapNext (hm : m.Unread) (h : Host) : (m.mapNext h).2.1.Unread := by
  obtain ⟨hloaded, hposition⟩ := m.mapNext_position h
  refine ⟨hloaded.trans hm.loaded, ?_⟩
  rcases hposition with ⟨-, hindex⟩ | ⟨-, hindex⟩
  · exact hindex.trans hm.next
  · exact hindex

theorem Unread.start (hm : m.Unread) (h : Host) : (m.start h).2.1.Unread := by
  unfold PageMemory.start
  by_cases hstarted : m.started = true
  · rw [if_pos hstarted]
    exact hm
  rw [if_neg hstarted]
  rcases m.provider.announce (Segments.sizes m.initialSize m.maxSize) h with ⟨_ | _, p, k⟩
  · exact ⟨hm.loaded, hm.next⟩
  · have hready : ({ m with provider := p } : PageMemory).Unread := ⟨hm.loaded, hm.next⟩
    have hmapped := hready.mapNext k
    simp only
    generalize ({ m with provider := p } : PageMemory).mapNext k = out at hmapped
    obtain ⟨_ | _, m₁, k₁⟩ := out <;> exact ⟨hmapped.loaded, hmapped.next⟩

theorem Unread.stop (hm : m.Unread) (h : Host) : (m.stop h).2.1.Unread := by
  unfold PageMemory.stop
  split
  · exact hm
  · exact ⟨rfl, rfl⟩

theorem Unread.tallied (hm : m.Unread) (honward : m.Onward) : m.Tallied where
  onward := honward
  loaded_le := by
    rw [hm.loaded]
    exact Nat.zero_le _
  next_le := by
    rw [hm.next]
    exact Nat.zero_le _

end PageMemory
end PageRegions
