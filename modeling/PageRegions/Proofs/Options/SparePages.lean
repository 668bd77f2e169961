import Mathlib.Algebra.Group.Action.Defs
import Mathlib.Algebra.Order.BigOperators.Group.List
import PageRegions.Admission
import PageRegions.Proofs.Memory.Segments
import PageRegions.Proofs.Number.Binary64
import PageRegions.Proofs.Options.Accepted

/-!
# Settings that leave pages to spare

The watermark of a region is a share of the pages that would fit in its maximum size as a whole.
What can be handed out is what fits in its segments, one by one, and there is less of that: each
segment loses a part of a page, and the pages of one segment are counted in 32 bits. A region has
pages to spare if the watermark is below the second count.

The rules on settings do not ask for that. But a threshold they accept leaves one page in a thousand
above the watermark, and the segments of a region lose seventeen pages at most. So large regions
have pages to spare (`sparesPages_of_many`), as long as the pages of a segment can be counted.
-/

set_option autoImplicit false

namespace PageRegions

/-! ## Thresholds -/

namespace Binary64

theorem signedUnits_le_of_less {x y : Binary64} (hx : x.isNaN = false) (hy : y.isNaN = false)
    (hless : x.less y = false) : y.signedUnits ≤ x.signedUnits := by
  unfold less at hless
  rw [hx, hy, Bool.not_false, Bool.true_and, Bool.true_and, decide_eq_false_iff_not] at hless
  exact Int.not_lt.mp hless

end Binary64

theorem greatestThreshold_units :
    greatestThreshold.units * 1000 ≤ 999 * Binary64.unitsPerOne := by decide +kernel

theorem greatestThreshold_finite :
    greatestThreshold.units < Binary64.unitsOfWord Binary64.infinityWord := by decide +kernel

/-- A threshold that is accepted, and is a number, is a positive one and at most 999 in a
thousand. -/
theorem Rules.Evicts.threshold_units {o : RegionOptions} {pageSize : UInt32}
    (hrules : Rules.Evicts o pageSize) (hnan : o.threshold.isNaN = false) :
    o.threshold.isInfinite = false ∧ o.threshold.isNegative = false
      ∧ o.threshold.units * 1000 ≤ 999 * Binary64.unitsPerOne := by
  have hleast := Binary64.signedUnits_le_of_less hnan (by decide +kernel) hrules.threshold_ge
  have hgreatest := Binary64.signedUnits_le_of_less (by decide +kernel) hnan hrules.threshold_le
  have hpos : 0 < leastThreshold.signedUnits := by decide +kernel
  have hsign : o.threshold.isNegative = false := by
    cases hneg : o.threshold.isNegative with
    | false => rfl
    | true =>
      unfold Binary64.signedUnits at hleast hpos
      rw [hneg, if_pos rfl] at hleast
      omega
  have hgreat : greatestThreshold.isNegative = false := by decide +kernel
  have hunits : o.threshold.units ≤ greatestThreshold.units := by
    unfold Binary64.signedUnits at hgreatest
    rw [hsign, hgreat] at hgreatest
    exact Int.ofNat_le.mp hgreatest
  refine ⟨?_, hsign, (Nat.mul_le_mul_right 1000 hunits).trans greatestThreshold_units⟩
  unfold Binary64.isInfinite
  rw [decide_eq_false_iff_not]
  intro hinf
  have hfinite := hunits.trans_lt greatestThreshold_finite
  rw [Binary64.units, hinf] at hfinite
  exact Nat.lt_irrefl _ hfinite

namespace RegionOptions

/-- The number of pages that fit in the segments of a region, one by one. -/
def pageCount (o : RegionOptions) (systemPageSize : UInt32) : Nat :=
  ((Segments.sizes o.initialSize o.maxSize).map fun size =>
    size.toNat / systemPageSize.toNat % 2 ^ 32).sum

/-- Whether room is made before the last of these pages is handed out. -/
def sparesPages (o : RegionOptions) (systemPageSize : UInt32) : Bool :=
  (o.watermark systemPageSize).less (Binary64.ofNat (o.pageCount systemPageSize))

variable {o : RegionOptions} {size : UInt32}

theorem pageCount_lt : o.pageCount size < 2 ^ 53 := by
  have hlength := Segments.sizes_length o.initialSize o.maxSize
  have hle := List.sum_le_card_nsmul ((Segments.sizes o.initialSize o.maxSize).map fun s =>
    s.toNat / size.toNat % 2 ^ 32) (2 ^ 32) fun n hn => by
      obtain ⟨s, -, rfl⟩ := List.mem_map.mp hn
      exact (Nat.mod_lt _ (Nat.two_pow_pos 32)).le
  rw [List.length_map, smul_eq_mul] at hle
  unfold pageCount
  unfold Segments.most at hlength
  omega

/-- The segments of a region lose seventeen of its pages at most. -/
theorem le_pageCount (hle : o.initialSize ≤ o.maxSize) (hsize : 24 ≤ size.toNat)
    (hfew : o.maxSize.toNat / size.toNat < 2 ^ 32) :
    o.maxSize.toNat / size.toNat ≤ o.pageCount size + 17 := by
  have hlength := Segments.sizes_length o.initialSize o.maxSize
  have hcover := Nat.div_le_div_right (c := size.toNat)
    (Segments.le_sum_sizes o.initialSize o.maxSize)
  have hlost := Nat.add_div_le_div_add_div_add_one
    ((Segments.sizes o.initialSize o.maxSize).map (·.toNat)).sum 14 size.toNat
  have hparts := Segments.sum_div_le ((Segments.sizes o.initialSize o.maxSize).map (·.toNat))
    size.toNat
  have hexact : o.pageCount size
      = (((Segments.sizes o.initialSize o.maxSize).map (·.toNat)).map (· / size.toNat)).sum := by
    rw [List.map_map]
    unfold pageCount
    congr 1
    refine List.map_congr_left fun s hs => Nat.mod_eq_of_lt ?_
    refine (Nat.div_le_div_right ?_).trans_lt hfew
    exact (List.single_le_sum (fun _ _ => Nat.zero_le _) _ (List.mem_map_of_mem hs)).trans
      (Segments.sum_sizes_le hle)
  rw [Nat.div_eq_of_lt (show 14 < size.toNat by omega)] at hlost
  rw [List.length_map] at hparts
  unfold Segments.most at hlength
  omega

/-- **A large region has pages to spare**, at every threshold that is accepted. -/
theorem sparesPages_of_many {pageSize : UInt32} (hrules : Rules.Evicts o pageSize)
    (hnan : o.threshold.isNaN = false) (hle : o.initialSize ≤ o.maxSize) (hsize : 24 ≤ size.toNat)
    (hmany : 18000 ≤ o.maxSize.toNat / size.toNat) (hfew : o.maxSize.toNat / size.toNat < 2 ^ 32) :
    o.sparesPages size = true := by
  obtain ⟨hinf, hsign, hthreshold⟩ := hrules.threshold_units hnan
  have hcount := le_pageCount hle hsize hfew
  have hcapacity : (o.maxSize / size.toUInt64).toNat = o.maxSize.toNat / size.toNat := by
    rw [UInt64.toNat_div, UInt32.toNat_toUInt64]
  have hbelow : o.maxSize.toNat / size.toNat * o.threshold.units
      ≤ (o.pageCount size - 1) * Binary64.unitsPerOne := by
    -- One page in a thousand is eighteen of them: the seventeen that are lost, and one to spare.
    have hshare : 999 * (o.maxSize.toNat / size.toNat) ≤ 1000 * (o.pageCount size - 1) := by omega
    generalize o.maxSize.toNat / size.toNat = capacity at hshare
    refine Nat.le_of_mul_le_mul_right (c := 1000) ?_ (by decide)
    calc capacity * o.threshold.units * 1000
        = capacity * (o.threshold.units * 1000) := Nat.mul_assoc _ _ _
      _ ≤ capacity * (999 * Binary64.unitsPerOne) := Nat.mul_le_mul_left _ hthreshold
      _ = 999 * capacity * Binary64.unitsPerOne := by
          rw [← Nat.mul_assoc, Nat.mul_comm capacity]
      _ ≤ 1000 * (o.pageCount size - 1) * Binary64.unitsPerOne := Nat.mul_le_mul_right _ hshare
      _ = (o.pageCount size - 1) * Binary64.unitsPerOne * 1000 := by
          rw [Nat.mul_assoc, Nat.mul_comm]
  obtain ⟨hnumber, hunder⟩ := Binary64.mul_ofNat_le (show o.maxSize.toNat / size.toNat < 2 ^ 53
    by omega) hnan hinf hsign hbelow
  unfold sparesPages watermark Binary64.less
  rw [hcapacity, hnumber, Binary64.isNaN_ofNat, Bool.not_false, Bool.true_and, Bool.true_and,
    decide_eq_true_iff]
  have hlt : o.pageCount size < 2 ^ 53 := pageCount_lt
  rw [Binary64.signedUnits_ofNat (by omega)] at hunder
  rw [Binary64.signedUnits_ofNat hlt]
  refine hunder.trans_lt (Int.ofNat_lt.mpr ?_)
  exact Nat.mul_lt_mul_of_pos_right (by omega) (by decide)

end RegionOptions

/-- The page size in use with its header, which fits in a word. -/
theorem MemoryOptions.systemPageSize_toNat {o : MemoryOptions}
    (hsize : o.effectivePageSize.toNat + 24 < 2 ^ 32) :
    (o.effectivePageSize + 24).toNat = o.effectivePageSize.toNat + 24 := by
  rw [UInt32.toNat_add, show (24 : UInt32).toNat = 24 from rfl, Nat.mod_eq_of_lt hsize]

/-- So settings that are accepted leave pages to spare to regions of 18000 pages and more. -/
theorem MemoryOptions.check_sparesPages {narrow : Bool} {o : MemoryOptions}
    (hok : (o.check narrow).result = .ok ()) (hpersistence : o.persistence = false)
    (hsize : o.effectivePageSize.toNat + 24 < 2 ^ 32) {region : RegionOptions}
    (hregion : region ∈ (o.check narrow).options.regions) (hmode : region.mode ≠ .disabled)
    (hnan : region.threshold.isNaN = false)
    (hmany : 18000 ≤ region.maxSize.toNat / (o.effectivePageSize.toNat + 24))
    (hfew : region.maxSize.toNat / (o.effectivePageSize.toNat + 24) < 2 ^ 32) :
    region.sparesPages (o.effectivePageSize + 24) = true := by
  have haccepted := (check_ok hok).2.2 region hregion
  have hrules := haccepted.evicts (o.withPageSize_same.2.trans hpersistence) hmode
  rw [← systemPageSize_toNat hsize] at hmany hfew
  refine RegionOptions.sparesPages_of_many hrules hnan haccepted.size ?_ hmany hfew
  rw [systemPageSize_toNat hsize]
  exact Nat.le_add_left _ _

end PageRegions
