import PageRegions.Proofs.Options.SparePages

/-!
# Settings whose pool can be filled

A region that is above its watermark has loaded at least one page more than the watermark counts.
All of them can be evicted to the pool, and there are no others. So the pool can be filled whenever
it has to be if it asks for no more pages than that; and it never has to be if no page is spared
(`RegionOptions.reachesPool`).

The rules on settings do not ask for that, either. They allow the pool a tenth of the pages that
would fit if pages had no header. A page of six bytes takes five times that with its header, and
what is left of a fifth at the least threshold is a tenth: so the rules are enough from there on
(`reachesPool_of_page`), and are not below.
-/

set_option autoImplicit false

namespace PageRegions

/-! ## Watermarks that are numbers -/

/-- A threshold that is accepted, and is a number, is at least a half. -/
theorem Rules.Evicts.threshold_half {o : RegionOptions} {pageSize : UInt32}
    (hrules : Rules.Evicts o pageSize) (hnan : o.threshold.isNaN = false) :
    Binary64.unitsPerOne ≤ 2 * o.threshold.units := by
  obtain ⟨-, hsign, -⟩ := hrules.threshold_units hnan
  have hleast := Binary64.signedUnits_le_of_less hnan (by decide +kernel) hrules.threshold_ge
  have hhalf : leastThreshold.isNegative = false
      ∧ 2 * leastThreshold.units = Binary64.unitsPerOne := by decide +kernel
  unfold Binary64.signedUnits at hleast
  rw [hsign, hhalf.1] at hleast
  rw [← hhalf.2]
  exact Nat.mul_le_mul_left 2 (Int.ofNat_le.mp hleast)

namespace RegionOptions

variable {o : RegionOptions} {pageSize size : UInt32}

/-- At such a threshold the watermark is a number, too, and not a negative one. -/
theorem watermark_isNumber (hrules : Rules.Evicts o pageSize) (hnan : o.threshold.isNaN = false) :
    (o.watermark size).isNaN = false ∧ (o.watermark size).isNegative = false := by
  obtain ⟨hinf, hsign, -⟩ := hrules.threshold_units hnan
  unfold watermark
  rw [Binary64.mul_ofNat (UInt64.toNat_lt _) hnan hinf hsign]
  exact ⟨Binary64.isNaN_ofUnitRatio _ _ _, Binary64.isNegative_ofUnitRatio _ _⟩

/-- At a threshold that is no number the watermark is none. -/
theorem watermark_isNaN (hnan : o.threshold.isNaN = true) : (o.watermark size).isNaN = true := by
  unfold watermark Binary64.mul
  rw [hnan, Bool.or_true, if_pos rfl]
  decide

/-- Half of the pages that fit are at most at the watermark, if they can be counted exactly. -/
theorem half_le_watermark (hrules : Rules.Evicts o pageSize) (hnan : o.threshold.isNaN = false)
    {n : Nat} (hn : 2 * n < 2 ^ 53) (hfits : 2 * n ≤ o.maxSize.toNat / size.toNat) :
    n ≤ (o.watermark size).floorNat := by
  obtain ⟨hinf, hsign, -⟩ := hrules.threshold_units hnan
  obtain ⟨hnumber, hpositive⟩ : (o.watermark size).isNaN = false
      ∧ (o.watermark size).isNegative = false := watermark_isNumber hrules hnan
  have hcapacity : (o.maxSize / size.toUInt64).toNat = o.maxSize.toNat / size.toNat := by
    rw [UInt64.toNat_div, UInt32.toNat_toUInt64]
  have hshare : n * Binary64.unitsPerOne ≤ 2 * n * o.threshold.units := by
    rw [Nat.mul_comm 2 n, Nat.mul_assoc]
    exact Nat.mul_le_mul_left n (hrules.threshold_half hnan)
  rw [← hcapacity] at hfits
  have hle := Binary64.le_mul_ofNat hn hfits (UInt64.toNat_lt _) hnan hinf hsign hshare
  rw [Binary64.le_floorNat_iff (by omega) hnumber hpositive]
  unfold watermark at hnumber ⊢
  unfold Binary64.less
  rw [hnumber, Binary64.isNaN_ofNat, Bool.not_false, Bool.true_and, Bool.true_and,
    decide_eq_false_iff_not, Int.not_lt]
  exact hle

/-! ## Pools -/

/-- A pool that is accepted is asked for as it is, without a wrap. -/
theorem poolTarget_toNat (hpos : 0 ≤ o.poolSize.toInt) :
    (o.poolTarget.toNat : Int) = o.poolSize.toInt := by
  have hword : o.poolSize.toInt64.toInt = o.poolSize.toInt := Int32.toInt_toInt64 _
  unfold poolTarget
  rw [← hword] at hpos ⊢
  rw [Int64.toNat_toUInt64_of_le (Int64.le_iff_toInt_le.mpr hpos)]
  exact Int.toNat_of_nonneg hpos

/-- Whether the pool asks for no more pages than there are when room is made. -/
def reachesPool (o : RegionOptions) (systemPageSize : UInt32) : Bool :=
  !o.sparesPages systemPageSize
    || decide (o.poolTarget.toNat ≤ (o.watermark systemPageSize).floorNat + 1)

/-- **Pages of six bytes and more keep the rules' promise**: every pool that they accept can be
filled. -/
theorem reachesPool_of_page (hrules : Rules.Evicts o pageSize) (hpage : 6 ≤ pageSize.toNat)
    (hsize : size.toNat = pageSize.toNat + 24) : o.reachesPool size = true := by
  unfold reachesPool
  cases hnan : o.threshold.isNaN with
  | true =>
    have hnone : o.sparesPages size = false := by
      unfold sparesPages Binary64.less
      rw [watermark_isNaN hnan]
      rfl
    rw [hnone]
    rfl
  | false =>
    have hpool := poolTarget_toNat (Int.le_of_lt (Int.lt_trans (by decide) hrules.pool_gt))
    have hlimit := hrules.pool_lt
    rw [← hpool, Int.ofNat_lt] at hlimit
    have hword : o.poolTarget.toNat < 2 ^ 31 := by
      have hlt := o.poolSize.toInt_lt
      omega
    -- The limit is the tenth part of the pages without headers.
    have htenth : (o.poolTarget.toNat + 1) * (10 * pageSize.toNat) ≤ o.maxSize.toNat := by
      have hne : pageSize ≠ 0 := by
        rintro rfl
        exact absurd hpage (by decide)
      unfold Rules.poolLimit at hlimit
      rw [if_neg hne, Nat.div_div_eq_div_mul, Nat.mul_comm pageSize.toNat] at hlimit
      exact (Nat.le_div_iff_mul_le (by omega)).mp hlimit
    have hfits : 2 * o.poolTarget.toNat ≤ o.maxSize.toNat / size.toNat := by
      rw [Nat.le_div_iff_mul_le (by omega), hsize]
      refine le_trans ?_ htenth
      calc 2 * o.poolTarget.toNat * (pageSize.toNat + 24)
          ≤ 2 * o.poolTarget.toNat * (5 * pageSize.toNat) := Nat.mul_le_mul_left _ (by omega)
        _ = o.poolTarget.toNat * (10 * pageSize.toNat) := by
            rw [Nat.mul_comm 2, Nat.mul_assoc, ← Nat.mul_assoc 2]
        _ ≤ (o.poolTarget.toNat + 1) * (10 * pageSize.toNat) :=
            Nat.mul_le_mul_right _ (Nat.le_succ _)
    have hmark := half_le_watermark hrules hnan (by omega) hfits
    rw [Bool.or_eq_true, decide_eq_true_iff]
    exact Or.inr (hmark.trans (Nat.le_succ _))

end RegionOptions
end PageRegions
