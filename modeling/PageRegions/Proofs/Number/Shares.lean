import Mathlib.Algebra.Order.Field.Rat
import Mathlib.Data.Rat.Cast.Order
import Mathlib.Tactic.Ring
import PageRegions.Proofs.Number.Binary64

/-!
# Values of numbers, and shares below one

A number that is finite has a value, which is a rational number (`value`). What is no number has
none, and neither has infinity.

A share of a count is rounded twice: the count is, if 53 bits cannot hold it, and so is the product.
A share of 999 in a thousand is less than the count all the same (`mul_ofNat_less`). To see that it
takes no bound on the error of rounding. With forty-one bits one can name a number that is between
the two, is exact, and so is not crossed by rounding either of them.
-/

set_option autoImplicit false

namespace PageRegions
namespace Binary64

/-! ## Values -/

/-- The value of a finite number. -/
def value (x : Binary64) : ℚ := (x.signedUnits : ℚ) / (unitsPerOne : ℚ)

theorem unitsPerOne_pos : 0 < unitsPerOne := by decide

/-- What is a number is finite or infinite. -/
theorem isFinite_of_not {x : Binary64} (hnan : x.isNaN = false) (hinf : x.isInfinite = false) :
    x.isFinite = true := by
  unfold isNaN at hnan
  unfold isInfinite at hinf
  unfold isFinite
  rw [decide_eq_false_iff_not] at hnan hinf
  rw [decide_eq_true_iff]
  omega

theorem isNaN_of_isFinite {x : Binary64} (hfinite : x.isFinite = true) : x.isNaN = false := by
  unfold isFinite at hfinite
  unfold isNaN
  rw [decide_eq_true_iff] at hfinite
  rw [decide_eq_false_iff_not]
  omega

/-- The value of a number that is not negative is its count of units. -/
theorem value_of_not_isNegative {x : Binary64} (hsign : x.isNegative = false) :
    x.value = (x.units : ℚ) / (unitsPerOne : ℚ) := by
  unfold value signedUnits
  rw [hsign, if_neg Bool.false_ne_true, Int.cast_natCast]

/-- Fractions of one can be compared by their units. -/
theorem ratio_le_value {x : Binary64} (hsign : x.isNegative = false) (num den : Nat)
    (hden : 0 < den) :
    ((num : ℚ) / (den : ℚ) ≤ x.value ↔ num * unitsPerOne ≤ den * x.units)
      ∧ (x.value ≤ (num : ℚ) / (den : ℚ) ↔ x.units * den ≤ num * unitsPerOne) := by
  have hpos : (0 : ℚ) < (unitsPerOne : ℚ) := Nat.cast_pos.mpr unitsPerOne_pos
  have hden' : (0 : ℚ) < (den : ℚ) := Nat.cast_pos.mpr hden
  rw [value_of_not_isNegative hsign]
  constructor
  · rw [div_le_div_iff₀ hden' hpos, mul_comm (x.units : ℚ), ← Nat.cast_mul, ← Nat.cast_mul,
      Nat.cast_le]
  · rw [div_le_div_iff₀ hpos hden', ← Nat.cast_mul, ← Nat.cast_mul, Nat.cast_le]

/-! ## Shares below one -/

/-- The front of a count: forty-one bits that it begins with, and how many come behind. -/
theorem exists_front {x e : Nat} (he : 92 ≤ e) (he' : e ≤ 1076) (hx : 2 ^ e ≤ x)
    (hx' : x < 2 ^ (64 + e)) :
    ∃ n k, 2 ^ 40 ≤ n ∧ n < 2 ^ 41 ∧ 52 ≤ k ∧ k < 1100 ∧ n * 2 ^ k ≤ x ∧ x < (n + 1) * 2 ^ k := by
  have hne : x ≠ 0 := ((Nat.two_pow_pos e).trans_le hx).ne'
  have hlow : e ≤ Nat.log2 x := (Nat.le_log2 hne).mpr hx
  have hhigh : Nat.log2 x < 64 + e := (Nat.log2_lt hne).mpr hx'
  obtain ⟨k, hk⟩ : ∃ k, Nat.log2 x = 40 + k := ⟨Nat.log2 x - 40, by omega⟩
  have hfirst := Nat.log2_self_le hne
  have hlast := Nat.lt_log2_self (n := x)
  rw [hk, Nat.pow_add] at hfirst
  rw [hk, Nat.add_right_comm, Nat.pow_add] at hlast
  refine ⟨x / 2 ^ k, k, ?_, ?_, by omega, by omega, Nat.div_mul_le_self _ _, ?_⟩
  · exact (Nat.le_div_iff_mul_le (Nat.two_pow_pos k)).mpr hfirst
  · exact Nat.div_lt_of_lt_mul (by rw [Nat.mul_comm]; exact hlast)
  · rw [Nat.mul_comm]
    exact Nat.lt_mul_div_succ x (Nat.two_pow_pos k)

/-- Rounding does not cross a number that is exact. -/
theorem unitsOfWord_le_of_le {num den n k : Nat} (hden : 0 < den) (hn : n < 2 ^ 53) (hk : 52 ≤ k)
    (hk' : k < 1100) (hle : num ≤ n * 2 ^ k * den) :
    unitsOfWord (nearestWord num den) ≤ n * 2 ^ k := by
  have hfactor := nearestWord_mul_right (n * 2 ^ k) 1 hden
  rw [Nat.one_mul] at hfactor
  rw [← unitsOfWord_nearestWord hn hk hk', ← hfactor]
  exact unitsOfWord_mono (nearestWord_mono den hle)

theorem le_unitsOfWord_of_le {num n k : Nat} (hn : n < 2 ^ 53) (hk : 52 ≤ k) (hk' : k < 1100)
    (hle : n * 2 ^ k ≤ num) : n * 2 ^ k ≤ unitsOfWord (nearestWord num 1) := by
  rw [← unitsOfWord_nearestWord hn hk hk']
  exact unitsOfWord_mono (nearestWord_mono 1 hle)

/-- **A share of 999 in a thousand is less than the count** that it is a share of. -/
theorem mul_ofNat_less {c : Nat} {t : Binary64} (hpos : 0 < c) (hc : c < 2 ^ 64)
    (hnan : t.isNaN = false) (hinf : t.isInfinite = false) (hsign : t.isNegative = false)
    (hshare : t.units * 1000 ≤ 999 * unitsPerOne) : ((ofNat c).mul t).less (ofNat c) = true := by
  -- With the exponent as a variable, no tactic is led to compute this power of two.
  obtain ⟨e, he⟩ : ∃ e, e = 1074 := ⟨_, rfl⟩
  have hone : unitsPerOne = 2 ^ e := by rw [unitsPerOne, ← he, Nat.one_shiftLeft]
  obtain ⟨n, k, hlow, hhigh, hk, hk', hfirst, hlast⟩ :=
    exists_front (x := c * unitsPerOne) (e := e) (by omega) (by omega)
      (by
        rw [hone]
        exact Nat.le_mul_of_pos_left _ hpos)
      (by
        rw [hone, Nat.pow_add]
        exact Nat.mul_lt_mul_of_pos_right hc (Nat.two_pow_pos e))
  have hunits : (ofNat c).units = unitsOfWord (nearestWord (c * unitsPerOne) 1) := by
    unfold ofNat ofRatio units
    rw [word_ofUnitRatio]
  have hcount : (ofNat c).signedUnits = ((ofNat c).units : Int) := by
    rw [hunits]
    exact signedUnits_ofUnitRatio _ _
  -- The count, rounded, is between the front and the next front.
  have habove : n * 2 ^ k ≤ (ofNat c).units := by
    rw [hunits]
    exact le_unitsOfWord_of_le (by omega) hk hk' hfirst
  have hbelow : (ofNat c).units ≤ (n + 1) * 2 ^ k := by
    rw [hunits]
    exact unitsOfWord_le_of_le Nat.one_pos (by omega) hk hk'
      (by rw [Nat.mul_one]; exact hlast.le)
  -- The share, before it is rounded, is at most the front before that.
  have hexact : (ofNat c).units * t.units ≤ (n - 1) * 2 ^ k * unitsPerOne := by
    refine Nat.le_of_mul_le_mul_right (c := 1000) ?_ (by decide)
    calc (ofNat c).units * t.units * 1000
        = (ofNat c).units * (t.units * 1000) := Nat.mul_assoc _ _ _
      _ ≤ (n + 1) * 2 ^ k * (999 * unitsPerOne) := Nat.mul_le_mul hbelow hshare
      _ = 999 * (n + 1) * (2 ^ k * unitsPerOne) := by ring
      _ ≤ 1000 * (n - 1) * (2 ^ k * unitsPerOne) := Nat.mul_le_mul_right _ (by omega)
      _ = (n - 1) * 2 ^ k * unitsPerOne * 1000 := by ring
  have hrounded : unitsOfWord (nearestWord ((ofNat c).units * t.units) unitsPerOne)
      ≤ (n - 1) * 2 ^ k :=
    unitsOfWord_le_of_le unitsPerOne_pos (by omega) hk hk' hexact
  have hgap : (n - 1) * 2 ^ k < n * 2 ^ k :=
    Nat.mul_lt_mul_of_pos_right (by omega) (Nat.two_pow_pos k)
  rw [mul_ofNat hc hnan hinf hsign]
  unfold less
  rw [isNaN_ofUnitRatio, isNaN_ofNat, Bool.not_false, Bool.true_and, Bool.true_and,
    decide_eq_true_iff, signedUnits_ofUnitRatio, hcount, Int.ofNat_lt]
  exact (hrounded.trans_lt hgap).trans_le habove

/-- What is no number is less than nothing. -/
theorem less_of_isNaN {x y : Binary64} (hnan : x.isNaN = true) : x.less y = false := by
  unfold less
  rw [hnan]
  rfl

end Binary64
end PageRegions
