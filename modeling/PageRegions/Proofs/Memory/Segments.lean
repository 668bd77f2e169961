import Mathlib.Algebra.GroupWithZero.Nat
import Mathlib.Data.Nat.ModEq
import PageRegions.Memory.Segments

/-!
# How much of a region its segments cover

There are at most sixteen segments, and together they cover the maximum size of the region but for a
few bytes: what is left of it besides the first is divided by fifteen, and the remainder of that
division is lost. Where the shares would be smaller than the least size, fewer segments of that size
are made instead, and then nothing is lost (`sizes_divided`).
-/

set_option autoImplicit false

namespace PageRegions
namespace Segments

theorem further_length (size : UInt64) (count : Nat) (remaining : UInt64) :
    (further size count remaining).length ≤ count := by
  induction count generalizing remaining with
  | zero => exact Nat.le_refl 0
  | succ count ih =>
    unfold further
    split
    · exact Nat.zero_le _
    · exact Nat.succ_le_succ (ih _)

theorem sizes_length (initial max : UInt64) : (sizes initial max).length ≤ most :=
  Nat.succ_le_succ (further_length _ _ _)

theorem toNat_min (a b : UInt64) : (min a b).toNat = min a.toNat b.toNat := by
  rw [show min a b = if a ≤ b then a else b from rfl]
  split
  · next hle => exact (Nat.min_eq_left (UInt64.le_iff_toNat_le.mp hle)).symm
  · next hgt =>
    have hle := UInt64.le_of_lt (UInt64.not_le.mp hgt)
    exact (Nat.min_eq_right (UInt64.le_iff_toNat_le.mp hle)).symm

theorem toNat_max (a b : UInt64) : (max a b).toNat = max a.toNat b.toNat := by
  rw [show max a b = if a ≤ b then b else a from rfl]
  split
  · next hle => exact (Nat.max_eq_right (UInt64.le_iff_toNat_le.mp hle)).symm
  · next hgt =>
    have hle := UInt64.le_of_lt (UInt64.not_le.mp hgt)
    exact (Nat.max_eq_left (UInt64.le_iff_toNat_le.mp hle)).symm

/-- Further segments cover what remains, as far as so many of them can. -/
theorem sum_further (size : UInt64) (count : Nat) (remaining : UInt64) :
    ((further size count remaining).map (·.toNat)).sum
      = min (count * size.toNat) remaining.toNat := by
  induction count generalizing remaining with
  | zero => simp [further]
  | succ count ih =>
    unfold further
    by_cases hzero : remaining = 0
    · simp [hzero]
    · have hnext := toNat_min size remaining
      have hleft : (remaining - min size remaining).toNat
          = remaining.toNat - min size.toNat remaining.toNat := by
        rw [UInt64.toNat_sub_of_le, hnext]
        rw [UInt64.le_iff_toNat_le, hnext]
        exact Nat.min_le_right _ _
      rw [if_neg hzero, List.map_cons, List.sum_cons, ih, hleft, hnext, Nat.add_mul, Nat.one_mul]
      omega

/-- All segments together cover the maximum size but for fourteen bytes at most. -/
theorem le_sum_sizes (initial max : UInt64) :
    max.toNat ≤ ((sizes initial max).map (·.toNat)).sum + 14 := by
  unfold sizes
  simp only [List.map_cons, List.sum_cons, sum_further]
  by_cases hlt : initial < max
  · have hle := UInt64.le_of_lt hlt
    have hnat := UInt64.le_iff_toNat_le.mp hle
    have hshare := toNat_max ((max - initial) / UInt64.ofNat (most - 1)) leastSize
    rw [UInt64.toNat_div, UInt64.toNat_sub_of_le _ _ hle] at hshare
    rw [if_pos hlt, UInt64.toNat_sub_of_le _ _ hle]
    have hfifteen : (UInt64.ofNat (most - 1)).toNat = 15 := rfl
    have hcount : most - 1 = 15 := rfl
    rw [hfifteen] at hshare
    rw [hcount] at hshare ⊢
    omega
  · have hnat := UInt64.le_iff_toNat_le.mp (UInt64.not_lt.mp hlt)
    omega

theorem sum_sizes_le {initial max : UInt64} (hle : initial ≤ max) :
    ((sizes initial max).map (·.toNat)).sum ≤ max.toNat := by
  have hnat := UInt64.le_iff_toNat_le.mp hle
  unfold sizes
  simp only [List.map_cons, List.sum_cons, sum_further]
  by_cases hlt : initial < max
  · rw [if_pos hlt, UInt64.toNat_sub_of_le _ _ hle]
    omega
  · rw [if_neg hlt, UInt64.toNat_zero]
    omega

/-! ## How the maximum size is divided -/

/-- Further segments are not empty. -/
theorem further_pos {size : UInt64} (hsize : 0 < size) (count : Nat) (remaining : UInt64) :
    ∀ x ∈ further size count remaining, 0 < x := by
  induction count generalizing remaining with
  | zero => exact List.forall_mem_nil _
  | succ count ih =>
    unfold further
    split
    · exact List.forall_mem_nil _
    · next hleft =>
      refine List.forall_mem_cons.mpr ⟨?_, ih _⟩
      have hremaining : 0 < remaining := UInt64.pos_iff_ne_zero.mpr hleft
      rw [UInt64.lt_iff_toNat_lt] at hsize hremaining ⊢
      rw [toNat_min]
      exact lt_min hsize hremaining

/-- A segment behind which there is another one took its full share. -/
theorem further_dropLast (size : UInt64) (count : Nat) (remaining : UInt64) :
    ∀ x ∈ (further size count remaining).dropLast, x = size := by
  induction count generalizing remaining with
  | zero => exact List.forall_mem_nil _
  | succ count ih =>
    unfold further
    split
    · exact List.forall_mem_nil _
    simp only
    by_cases hlast : further size count (remaining - min size remaining) = []
    · rw [hlast]
      exact List.forall_mem_nil _
    · rw [List.dropLast_cons_of_ne_nil hlast]
      refine List.forall_mem_cons.mpr ⟨?_, ih _⟩
      -- If the share were all that remained, nothing would be left for another segment.
      have hleft : remaining - min size remaining ≠ 0 := by
        intro hnone
        rw [hnone] at hlast
        cases count <;> exact hlast rfl
      rw [show min size remaining = if size ≤ remaining then size else remaining from rfl] at hleft ⊢
      split
      · rfl
      · next hless =>
        rw [if_neg hless, UInt64.sub_self] at hleft
        exact absurd rfl hleft

/-- The share of each further segment, and what remains to be shared out. -/
theorem exists_share (initial max : UInt64) (hlt : initial < max) :
    ∃ share remaining : UInt64, sizes initial max = initial :: further share 15 remaining
      ∧ remaining.toNat = max.toNat - initial.toNat ∧ 256 * 2 ^ 20 ≤ share.toNat
      ∧ (remaining.toNat / 15 < 256 * 2 ^ 20 → share.toNat = 256 * 2 ^ 20) := by
  have hremaining := UInt64.toNat_sub_of_le max initial (UInt64.le_of_lt hlt)
  have hshare : (Max.max ((max - initial) / UInt64.ofNat (most - 1)) leastSize).toNat
      = Max.max ((max - initial).toNat / 15) (256 * 2 ^ 20) := by
    rw [toNat_max, UInt64.toNat_div]
    rfl
  refine ⟨Max.max ((max - initial) / UInt64.ofNat (most - 1)) leastSize, max - initial, ?_,
    hremaining, ?_, fun hsmall => ?_⟩
  · unfold sizes
    rw [if_pos hlt]
    rfl
  · rw [hshare]
    exact Nat.le_max_right _ _
  · rw [hshare]
    exact Nat.max_eq_right (Nat.le_of_lt hsmall)

/-- What the sizes of a region's segments are to be, in bytes, if the region can grow. -/
structure Divided (initial max : Nat) (further : List Nat) : Prop where
  positive : ∀ x ∈ further, 0 < x
  /-- All but the last are of one size. -/
  shares : ∃ share, 256 * 2 ^ 20 ≤ share ∧ ∀ x ∈ further.dropLast, x = share
  within : initial + further.sum ≤ max
  covers : max < initial + further.sum + 15
  /-- Nothing is lost where the shares are of the least size. -/
  exact : (max - initial) / 15 < 256 * 2 ^ 20 → initial + further.sum = max

/-- **Segments cover the maximum size of a region**, all but the remainder of a division. -/
theorem sizes_divided (initial max : UInt64) :
    ∃ further : List UInt64, sizes initial max = initial :: further
      ∧ 1 ≤ (sizes initial max).length ∧ (sizes initial max).length ≤ 16
      ∧ (max ≤ initial → further = [])
      ∧ (initial < max → Divided initial.toNat max.toNat (further.map (·.toNat))) := by
  refine ⟨(sizes initial max).tail, rfl, Nat.succ_pos _, sizes_length initial max, fun hle => ?_,
    fun hlt => ?_⟩
  · unfold sizes
    rw [if_neg (UInt64.not_lt.mpr hle)]
    rfl
  · obtain ⟨share, remaining, hsizes, hremaining, hleast, hsmall⟩ := exists_share initial max hlt
    have hsum := sum_further share 15 remaining
    have hwithin := sum_sizes_le (UInt64.le_of_lt hlt)
    have hcovers := le_sum_sizes initial max
    rw [hsizes, List.map_cons, List.sum_cons] at hwithin hcovers
    rw [hsizes, List.tail_cons]
    constructor
    case positive =>
      intro x hx
      obtain ⟨y, hy, rfl⟩ := List.mem_map.mp hx
      have hshare : 0 < share := UInt64.lt_iff_toNat_lt.mpr (Nat.lt_of_lt_of_le (by decide) hleast)
      exact UInt64.lt_iff_toNat_lt.mp (further_pos hshare 15 remaining y hy)
    case shares =>
      refine ⟨share.toNat, hleast, fun x hx => ?_⟩
      rw [← List.map_dropLast] at hx
      obtain ⟨y, hy, rfl⟩ := List.mem_map.mp hx
      rw [further_dropLast share 15 remaining y hy]
    case within => exact hwithin
    case covers => omega
    case exact =>
      intro hfew
      rw [← hremaining] at hfew
      rw [hsum, hsmall hfew]
      have hlt' := UInt64.lt_iff_toNat_lt.mp hlt
      omega

/-- A region of 10 MiB that can grow by two segments of the least size and 10 MiB more. -/
example : sizes (10 * 1024 * 1024) (20 * 1024 * 1024 + 2 * leastSize)
    = [10 * 1024 * 1024, leastSize, leastSize, 10 * 1024 * 1024] := by decide +kernel

/-! ## Pages in segments -/

/-- Of the pages that fit in some memory, dividing it loses one for each part at most. -/
theorem sum_div_le (sizes : List Nat) (pageSize : Nat) :
    sizes.sum / pageSize ≤ (sizes.map (· / pageSize)).sum + sizes.length := by
  induction sizes with
  | nil => simp
  | cons size more ih =>
    have hadd := Nat.add_div_le_div_add_div_add_one size more.sum pageSize
    simp only [List.map_cons, List.sum_cons, List.length_cons]
    omega

end Segments
end PageRegions
