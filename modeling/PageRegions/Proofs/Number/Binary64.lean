import Mathlib.Algebra.Order.Group.Nat
import PageRegions.Number.Binary64

/-!
# The order of floating-point numbers

Rounding keeps the order, and so does reading the bits of a number as a count of units. Between them
they give that counts of things are compared with any number as they should be: what is less than
one count is less than every greater one (`less_ofNat_mono`).

Counts below 2 to the power 53 are exact. So a product that does not exceed such a count does not do
so after it was rounded (`mul_ofNat_le`), and nothing has to be known of how far rounding goes.
-/

set_option autoImplicit false

namespace PageRegions
namespace Binary64

theorem word_ofWord {negative : Bool} {w : Nat} (hw : w < 2 ^ 63) :
    (ofWord negative w).word = w := by
  unfold ofWord word
  rw [UInt64.toNat_ofNat', Nat.one_shiftLeft]
  cases negative <;> simp only [Bool.false_eq_true, if_true, if_false] <;> omega

theorem nearestWord_le (num den : Nat) : nearestWord num den ≤ infinityWord :=
  Nat.min_le_left _ _

theorem infinityWord_lt : infinityWord < 2 ^ 63 := by decide

/-! ## Rounding -/

theorem le_roundEven (num den : Nat) : num / den ≤ roundEven num den := by
  unfold roundEven
  dsimp only
  split
  · exact Nat.le_refl _
  · split
    · exact Nat.le_succ _
    · exact Nat.le_add_right _ _

theorem roundEven_le (num den : Nat) : roundEven num den ≤ num / den + 1 := by
  have hparity : num / den % 2 < 2 := Nat.mod_lt _ (by decide)
  unfold roundEven
  dsimp only
  split
  · exact Nat.le_succ _
  · split
    · exact Nat.le_refl _
    · omega

theorem roundEven_mono {num num' : Nat} (den : Nat) (h : num ≤ num') :
    roundEven num den ≤ roundEven num' den := by
  have hquotient : num / den ≤ num' / den := Nat.div_le_div_right h
  rcases Nat.lt_or_eq_of_le hquotient with hlt | heq
  · exact (roundEven_le num den).trans (hlt.trans_le (le_roundEven num' den))
  · have hnum := Nat.div_add_mod num den
    have hnum' := Nat.div_add_mod num' den
    rw [heq] at hnum
    unfold roundEven
    dsimp only
    rw [heq]
    split_ifs <;> omega

/-- The step between numbers grows with them. At a step there are fewer significands than the next
one begins with, so that rounding keeps the order across steps, too. -/
theorem nearestWord_mono {num num' : Nat} (den : Nat) (h : num ≤ num') :
    nearestWord num den ≤ nearestWord num' den := by
  have hquotient : num / den ≤ num' / den := Nat.div_le_div_right h
  unfold nearestWord
  simp only [Nat.shiftLeft_eq]
  refine min_le_min_left infinityWord ?_
  generalize hstep : Nat.log2 (num / den) - 52 = step
  generalize hstep' : Nat.log2 (num' / den) - 52 = step'
  have hsmall : num / (den * 2 ^ step) < 2 ^ 53 := by
    rw [← Nat.div_div_eq_div_mul]
    refine Nat.div_lt_of_lt_mul (Nat.lt_log2_self.trans_le ?_)
    rw [← Nat.pow_add]
    exact Nat.pow_le_pow_right (by decide) (by omega)
  -- At the same step it is a matter of rounding. At a greater one, the first significand there
  -- makes up for all at the smaller. The step cannot go down.
  rcases Nat.lt_trichotomy step step' with hlt | rfl | hgt
  · have hlarge : 2 ^ 52 ≤ num' / (den * 2 ^ step') := by
      have hne : num' / den ≠ 0 := by
        rintro hzero
        rw [hzero, Nat.log2_zero] at hstep'
        omega
      rw [← Nat.div_div_eq_div_mul, Nat.le_div_iff_mul_le (Nat.two_pow_pos step'), ← Nat.pow_add]
      refine le_trans ?_ (Nat.log2_self_le hne)
      exact Nat.pow_le_pow_right (by decide) (by omega)
    have hlow := roundEven_le num (den * 2 ^ step)
    have hhigh := le_roundEven num' (den * 2 ^ step')
    omega
  · exact Nat.add_le_add_left (roundEven_mono _ h) _
  · have hlog : Nat.log2 (num / den) ≤ Nat.log2 (num' / den) := by
      by_cases hzero : num / den = 0
      · rw [hzero, Nat.log2_zero]
        exact Nat.zero_le _
      · have hpos : 0 < num' / den := (Nat.pos_of_ne_zero hzero).trans_le hquotient
        rw [Nat.le_log2 hpos.ne']
        exact (Nat.log2_self_le hzero).trans hquotient
    omega

theorem roundEven_mul_right (num den : Nat) {d : Nat} (hd : 0 < d) :
    roundEven (num * d) (den * d) = roundEven num den := by
  unfold roundEven
  dsimp only
  rw [Nat.mul_div_mul_right _ _ hd, Nat.mul_mod_mul_right, ← Nat.mul_assoc]
  simp only [Nat.mul_lt_mul_right hd]

/-- A common factor does not matter. -/
theorem nearestWord_mul_right (num den : Nat) {d : Nat} (hd : 0 < d) :
    nearestWord (num * d) (den * d) = nearestWord num den := by
  unfold nearestWord
  simp only [Nat.shiftLeft_eq]
  rw [Nat.mul_div_mul_right _ _ hd, Nat.mul_right_comm den d, roundEven_mul_right _ _ hd]

theorem roundEven_of_dvd {num den : Nat} (hden : 0 < den) (h : den ∣ num) :
    roundEven num den = num / den := by
  unfold roundEven
  dsimp only
  rw [Nat.mod_eq_zero_of_dvd h, Nat.mul_zero, if_pos hden]

/-! ## Counts of units -/

theorem unitsOfWord_mono {w w' : Nat} (h : w ≤ w') : unitsOfWord w ≤ unitsOfWord w' := by
  have hexponent : w / 2 ^ 52 ≤ w' / 2 ^ 52 := Nat.div_le_div_right h
  have hw := Nat.div_add_mod w (2 ^ 52)
  have hw' := Nat.div_add_mod w' (2 ^ 52)
  have hfraction : w % 2 ^ 52 < 2 ^ 52 := Nat.mod_lt _ (Nat.two_pow_pos 52)
  unfold unitsOfWord
  simp only [Nat.shiftRight_eq_div_pow, Nat.shiftLeft_eq, Nat.one_mul]
  generalize w / 2 ^ 52 = exponent at hexponent hw
  generalize w' / 2 ^ 52 = exponent' at hexponent hw'
  rcases Nat.lt_or_eq_of_le hexponent with hlt | rfl
  · rw [if_neg (Nat.ne_zero_of_lt hlt)]
    have hone : 2 ^ 52 * 1 ≤ (2 ^ 52 + w' % 2 ^ 52) * 2 ^ (exponent' - 1) :=
      Nat.mul_le_mul (Nat.le_add_right _ _) (Nat.two_pow_pos _)
    split
    · omega
    · next hpos =>
      calc (2 ^ 52 + w % 2 ^ 52) * 2 ^ (exponent - 1)
          ≤ (2 ^ 52 * 2) * 2 ^ (exponent - 1) := Nat.mul_le_mul_right _ (by omega)
        _ = 2 ^ 52 * 2 ^ exponent := by
            rw [Nat.mul_assoc, ← Nat.pow_succ', Nat.succ_eq_add_one, Nat.sub_add_cancel]
            exact Nat.pos_of_ne_zero hpos
        _ ≤ (2 ^ 52 + w' % 2 ^ 52) * 2 ^ (exponent' - 1) :=
            Nat.mul_le_mul (Nat.le_add_right _ _)
              (Nat.pow_le_pow_right (by decide) (by omega))
  · split
    · omega
    · exact Nat.mul_le_mul_right _ (by omega)

/-- A significand in its 53 bits, at any step but the smallest. -/
theorem unitsOfWord_significand {step significand : Nat} (hlow : 2 ^ 52 ≤ significand)
    (hhigh : significand < 2 ^ 53) :
    unitsOfWord (step * 2 ^ 52 + significand) = significand * 2 ^ step := by
  have hexponent : (step * 2 ^ 52 + significand) / 2 ^ 52 = step + 1 := by omega
  have hfraction : (step * 2 ^ 52 + significand) % 2 ^ 52 = significand - 2 ^ 52 := by omega
  unfold unitsOfWord
  simp only [Nat.shiftRight_eq_div_pow, Nat.shiftLeft_eq, Nat.one_mul, hexponent, hfraction]
  rw [if_neg (Nat.succ_ne_zero step), Nat.add_sub_cancel, Nat.add_sub_cancel' hlow]

/-- A number with as many zeros as it takes to fill 53 bits. -/
theorem significand_bounds {n e : Nat} (hlow : 2 ^ e ≤ n) (hhigh : n < 2 ^ (e + 1)) (he : e ≤ 52) :
    2 ^ 52 ≤ n * 2 ^ (52 - e) ∧ n * 2 ^ (52 - e) < 2 ^ 53 := by
  have hfirst : 2 ^ 52 = 2 ^ e * 2 ^ (52 - e) := by
    rw [← Nat.pow_add, Nat.add_sub_cancel' he]
  have hnext : 2 ^ 53 = 2 ^ (e + 1) * 2 ^ (52 - e) := by
    rw [← Nat.pow_add, Nat.add_right_comm, Nat.add_sub_cancel' he]
  rw [hfirst, hnext]
  exact ⟨Nat.mul_le_mul_right _ hlow, Nat.mul_lt_mul_of_pos_right hhigh (Nat.two_pow_pos _)⟩

theorem log2_mul_two_pow {n : Nat} (hn : n ≠ 0) (k : Nat) :
    Nat.log2 (n * 2 ^ k) = Nat.log2 n + k := by
  refine (Nat.log2_eq_iff (Nat.mul_ne_zero hn (Nat.two_pow_pos k).ne')).mpr ?_
  rw [Nat.pow_add, Nat.add_right_comm, Nat.pow_add _ (Nat.log2 n + 1)]
  exact ⟨Nat.mul_le_mul_right _ (Nat.log2_self_le hn),
    Nat.mul_lt_mul_of_pos_right Nat.lt_log2_self (Nat.two_pow_pos k)⟩

/-- Counts that 53 bits can hold need no rounding, whatever power of two they are counts of. -/
theorem unitsOfWord_nearestWord {n : Nat} (hn : n < 2 ^ 53) {k : Nat} (hk : 52 ≤ k)
    (hk' : k < 1100) : unitsOfWord (nearestWord (n * 2 ^ k) 1) = n * 2 ^ k := by
  rcases Nat.eq_zero_or_pos n with rfl | hpos
  · rw [Nat.zero_mul]
    decide
  · have he : Nat.log2 n ≤ 52 := Nat.le_of_lt_succ ((Nat.log2_lt hpos.ne').mpr hn)
    obtain ⟨hlow, hhigh⟩ := significand_bounds (Nat.log2_self_le hpos.ne') Nat.lt_log2_self he
    have hscaled : n * 2 ^ k = n * 2 ^ (52 - Nat.log2 n) * 2 ^ (Nat.log2 n + k - 52) := by
      rw [Nat.mul_assoc, ← Nat.pow_add]
      congr 2
      omega
    have hword : nearestWord (n * 2 ^ k) 1
        = (Nat.log2 n + k - 52) * 2 ^ 52 + n * 2 ^ (52 - Nat.log2 n) := by
      unfold nearestWord
      simp only [Nat.div_one, log2_mul_two_pow hpos.ne', Nat.shiftLeft_eq, Nat.one_mul]
      rw [hscaled, roundEven_of_dvd (Nat.two_pow_pos _) (Nat.dvd_mul_left _ _),
        Nat.mul_div_cancel _ (Nat.two_pow_pos _)]
      refine Nat.min_eq_right ?_
      unfold infinityWord
      omega
    rw [hword, unitsOfWord_significand hlow hhigh, ← hscaled]

/-! ## Numbers that were rounded -/

theorem word_ofUnitRatio (negative : Bool) (num den : Nat) :
    (ofUnitRatio negative num den).word = nearestWord num den :=
  word_ofWord ((nearestWord_le _ _).trans_lt infinityWord_lt)

theorem isNegative_ofUnitRatio (num den : Nat) :
    (ofUnitRatio false num den).isNegative = false := by
  have hlt := (nearestWord_le num den).trans_lt infinityWord_lt
  unfold ofUnitRatio ofWord isNegative
  rw [UInt64.toNat_ofNat', Nat.one_shiftLeft, if_neg Bool.false_ne_true, Nat.zero_add,
    Nat.mod_eq_of_lt (hlt.trans (by decide)), decide_eq_false_iff_not]
  omega

theorem isNaN_ofUnitRatio (negative : Bool) (num den : Nat) :
    (ofUnitRatio negative num den).isNaN = false := by
  unfold isNaN
  rw [word_ofUnitRatio, decide_eq_false_iff_not, Nat.not_lt]
  exact nearestWord_le _ _

theorem signedUnits_ofUnitRatio (num den : Nat) :
    (ofUnitRatio false num den).signedUnits = unitsOfWord (nearestWord num den) := by
  unfold signedUnits units
  rw [isNegative_ofUnitRatio, word_ofUnitRatio]
  rfl

/-! ## Counts of things -/

/-- The count of anything is a number. -/
theorem isNaN_ofNat (n : Nat) : (ofNat n).isNaN = false := isNaN_ofUnitRatio _ _ _

theorem signedUnits_ofNat_mono {m n : Nat} (h : m ≤ n) :
    (ofNat m).signedUnits ≤ (ofNat n).signedUnits := by
  unfold ofNat ofRatio
  rw [signedUnits_ofUnitRatio, signedUnits_ofUnitRatio, Int.ofNat_le]
  exact unitsOfWord_mono (nearestWord_mono 1 (Nat.mul_le_mul_right _ h))

theorem less_ofNat_mono {x : Binary64} {m n : Nat} (h : m ≤ n)
    (hless : x.less (ofNat m) = true) : x.less (ofNat n) = true := by
  unfold less at hless ⊢
  rw [isNaN_ofNat, Bool.and_eq_true, decide_eq_true_iff] at hless ⊢
  exact ⟨hless.1, hless.2.trans_le (signedUnits_ofNat_mono h)⟩

/-- Counts that 53 bits can hold are exact. -/
theorem units_ofNat {n : Nat} (hn : n < 2 ^ 53) : (ofNat n).units = n * unitsPerOne := by
  -- With the exponent as a variable, no tactic is led to compute this power of two.
  obtain ⟨k, hk⟩ : ∃ k, k = 1074 := ⟨_, rfl⟩
  have hunits : unitsPerOne = 2 ^ k := by rw [unitsPerOne, ← hk, Nat.one_shiftLeft]
  unfold ofNat ofRatio units
  rw [word_ofUnitRatio, hunits, unitsOfWord_nearestWord hn (by omega) (by omega)]

theorem signedUnits_ofNat {n : Nat} (hn : n < 2 ^ 53) :
    (ofNat n).signedUnits = (n * unitsPerOne : Nat) := by
  rw [← units_ofNat hn]
  unfold ofNat ofRatio
  rw [signedUnits_ofUnitRatio, units, word_ofUnitRatio]

/-- What a 64-bit word can count is finite. -/
theorem isInfinite_ofNat {n : Nat} (hn : n < 2 ^ 64) : (ofNat n).isInfinite = false := by
  have hle := nearestWord_mono 1 (Nat.mul_le_mul_right unitsPerOne (Nat.le_pred_of_lt hn))
  have hlast : nearestWord ((2 ^ 64 - 1) * unitsPerOne) 1 < infinityWord := by decide +kernel
  unfold ofNat ofRatio isInfinite
  rw [word_ofUnitRatio, decide_eq_false_iff_not]
  exact (hle.trans_lt hlast).ne

/-! ## Shares of counts -/

/-- Counts and products with counts are rounded alike, as ratios to the same. -/
theorem signedUnits_ofNat_ratio (n : Nat) :
    (ofNat n).signedUnits
      = unitsOfWord (nearestWord (n * unitsPerOne * unitsPerOne) unitsPerOne) := by
  have hfactor := nearestWord_mul_right (n * unitsPerOne) 1 (show 0 < unitsPerOne by decide)
  rw [Nat.one_mul] at hfactor
  rw [hfactor]
  exact signedUnits_ofUnitRatio _ _

/-- A share of a count is a number that is not negative, rounded once. -/
theorem mul_ofNat {c : Nat} {t : Binary64} (hc : c < 2 ^ 64) (hnan : t.isNaN = false)
    (hinf : t.isInfinite = false) (hpos : t.isNegative = false) :
    (ofNat c).mul t = ofUnitRatio false ((ofNat c).units * t.units) unitsPerOne := by
  have hcount : (ofNat c).isNegative = false := isNegative_ofUnitRatio _ _
  unfold mul
  simp only [isNaN_ofNat, hnan, isInfinite_ofNat hc, hinf, hcount, hpos, Bool.or_self,
    Bool.false_eq_true, if_false, bne_self_eq_false]

/-- Rounding a product does not take it past a count that it does not exceed. -/
theorem mul_ofNat_le {c n : Nat} {t : Binary64} (hc : c < 2 ^ 53)
    (hnan : t.isNaN = false) (hinf : t.isInfinite = false) (hpos : t.isNegative = false)
    (hle : c * t.units ≤ n * unitsPerOne) :
    ((ofNat c).mul t).isNaN = false ∧ ((ofNat c).mul t).signedUnits ≤ (ofNat n).signedUnits := by
  rw [mul_ofNat (hc.trans (by decide)) hnan hinf hpos, units_ofNat hc]
  refine ⟨isNaN_ofUnitRatio _ _ _, ?_⟩
  rw [signedUnits_ofUnitRatio, signedUnits_ofNat_ratio, Int.ofNat_le]
  refine unitsOfWord_mono (nearestWord_mono _ ?_)
  rw [Nat.mul_right_comm]
  exact Nat.mul_le_mul_right _ hle

/-- Nor does it take a share of a count below one that a smaller count reaches, which may be exact
where the count itself is not. -/
theorem le_mul_ofNat {c d n : Nat} {t : Binary64} (hd : d < 2 ^ 53) (hdc : d ≤ c) (hc : c < 2 ^ 64)
    (hnan : t.isNaN = false) (hinf : t.isInfinite = false) (hpos : t.isNegative = false)
    (hle : n * unitsPerOne ≤ d * t.units) :
    (ofNat n).signedUnits ≤ ((ofNat c).mul t).signedUnits := by
  have hunits : d * unitsPerOne ≤ (ofNat c).units := by
    have hmono := signedUnits_ofNat_mono hdc
    rw [signedUnits_ofNat hd] at hmono
    unfold signedUnits at hmono
    rw [show (ofNat c).isNegative = false from isNegative_ofUnitRatio _ _] at hmono
    exact Int.ofNat_le.mp hmono
  rw [mul_ofNat hc hnan hinf hpos, signedUnits_ofUnitRatio, signedUnits_ofNat_ratio,
    Int.ofNat_le]
  refine unitsOfWord_mono (nearestWord_mono _ ?_)
  calc n * unitsPerOne * unitsPerOne
      ≤ d * t.units * unitsPerOne := Nat.mul_le_mul_right _ hle
    _ = d * unitsPerOne * t.units := Nat.mul_right_comm _ _ _
    _ ≤ (ofNat c).units * t.units := Nat.mul_le_mul_right _ hunits

/-- The count in front of the fraction is the greatest that a number is not less than. -/
theorem le_floorNat_iff {x : Binary64} {n : Nat} (hn : n < 2 ^ 53) (hnan : x.isNaN = false)
    (hpos : x.isNegative = false) : n ≤ x.floorNat ↔ x.less (ofNat n) = false := by
  have hunits : x.signedUnits = (x.units : Int) := by
    unfold signedUnits
    rw [hpos, if_neg Bool.false_ne_true]
  unfold less floorNat
  rw [hnan, isNaN_ofNat, Bool.not_false, Bool.true_and, Bool.true_and, decide_eq_false_iff_not,
    hunits, signedUnits_ofNat hn, Int.ofNat_lt, Nat.not_lt]
  exact Nat.le_div_iff_mul_le (by decide)

/-! ## At most -/

/-- Whether `x` is at most `y`. What is no number compares with nothing. -/
def atMost (x y : Binary64) : Bool :=
  !x.isNaN && !y.isNaN && decide (x.signedUnits ≤ y.signedUnits)

/-- Of numbers, one is less than the other just if that is not at most the one. -/
theorem less_eq_not_atMost {x y : Binary64} (hx : x.isNaN = false) (hy : y.isNaN = false) :
    x.less y = !y.atMost x := by
  unfold less atMost
  simp only [hx, hy, Bool.not_false, Bool.true_and, ← decide_not, Int.not_le]

end Binary64
end PageRegions
