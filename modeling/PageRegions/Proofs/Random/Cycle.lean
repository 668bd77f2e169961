import Mathlib.Data.Nat.ModEq
import Mathlib.NumberTheory.LucasPrimality
import Mathlib.Tactic.NormNum.GCD
import Mathlib.Tactic.NormNum.Prime
import Mathlib.Tactic.ReduceModChar
import PageRegions.Random.Lehmer

/-!
# The cycle of the multiplicative generator

A step multiplies the state by 16807 modulo 2 to the power 31 minus 1 (`Live.step_toNat`). No power
of 16807 below the last leaves the remainder 1 (`orderOf_multiplier`). By Lucas's test this makes
the modulus a prime, and it makes the generator a single cycle: whatever number it begins with, it
goes through all others before it is back (`Live.steps_eq_iff`, `Live.exists_steps`).

The states 0 and the modulus are not on it. No seed leads to 0, but one whose lower 31 bits are all
set leads to the modulus and stays there, so for such seeds nothing of this holds
(`ofSeed_cycles`).
-/

set_option autoImplicit false

namespace PageRegions
namespace Lehmer

variable {g k : Lehmer}

/-! ## One step -/

/-- Whether a state is on the cycle: a number that is neither 0 nor as great as the modulus. -/
structure Live (g : Lehmer) : Prop where
  pos : 1 ≤ g.seed.toNat
  le : g.seed.toNat ≤ 2 ^ 31 - 2

/-- The part of a number from bit 31 on, added to the part below. -/
def folded (p : Nat) : Nat := p / 2 ^ 31 + p % 2 ^ 31

/-- A number is what it is folded to, up to multiples of the modulus. -/
theorem eq_mul_add_folded (p : Nat) : p = (2 ^ 31 - 1) * (p / 2 ^ 31) + folded p := by
  unfold folded
  omega

/-- The product is folded once. The words are wide enough for every state. -/
theorem step_toNat (g : Lehmer) :
    g.step.seed.toNat
      = if 2 ^ 31 - 1 < folded (g.seed.toNat * 16807)
        then folded (g.seed.toNat * 16807) - (2 ^ 31 - 1) else folded (g.seed.toNat * 16807) := by
  have hseed := g.seed.toNat_lt
  have hproduct : (g.seed.toUInt64 * multiplier).toNat = g.seed.toNat * 16807 := by
    rw [UInt64.toNat_mul, UInt32.toNat_toUInt64]
    exact Nat.mod_eq_of_lt (by change g.seed.toNat * 16807 < 2 ^ 64; omega)
  have hfolded : ((g.seed.toUInt64 * multiplier) >>> 31
        + (g.seed.toUInt64 * multiplier &&& modulus.toUInt64)).toUInt32.toNat
      = folded (g.seed.toNat * 16807) := by
    rw [UInt64.toNat_toUInt32, UInt64.toNat_add, UInt64.toNat_shiftRight, UInt64.toNat_and,
      hproduct]
    change (_ >>> 31 + (_ &&& (2 ^ 31 - 1))) % 2 ^ 64 % 2 ^ 32 = _
    rw [Nat.and_two_pow_sub_one_eq_mod, Nat.shiftRight_eq_div_pow, folded]
    omega
  unfold step
  simp only [UInt32.lt_iff_toNat_lt, hfolded]
  change (if 2 ^ 31 - 1 < _ then _ else _ : UInt32).toNat = _
  split
  · next hover =>
    rw [UInt32.toNat_sub_of_le, hfolded]
    · rfl
    · rw [UInt32.le_iff_toNat_le, hfolded]
      exact Nat.le_of_lt hover
  · exact hfolded

theorem Live.lt (hg : g.Live) : g.seed.toNat < 2 ^ 31 - 1 := Nat.lt_succ_of_le hg.le

theorem Live.not_dvd (hg : g.Live) : ¬ 2 ^ 31 - 1 ∣ g.seed.toNat * 16807 := by
  intro hdvd
  have hcoprime : Nat.Coprime (2 ^ 31 - 1) 16807 := by norm_num
  exact Nat.not_dvd_of_pos_of_lt hg.pos hg.lt (hcoprime.dvd_of_dvd_mul_right hdvd)

/-- **A step multiplies by 16807**, modulo 2 to the power 31 minus 1. -/
theorem Live.step_toNat (hg : g.Live) :
    g.step.seed.toNat = g.seed.toNat * 16807 % (2 ^ 31 - 1) := by
  have hfolds := eq_mul_add_folded (g.seed.toNat * 16807)
  have hfew : folded (g.seed.toNat * 16807) < 2 ^ 31 - 1 + (2 ^ 31 - 1) := by
    have hle := hg.le
    unfold folded
    omega
  rw [Lehmer.step_toNat]
  generalize folded (g.seed.toNat * 16807) = f at *
  have hmod : g.seed.toNat * 16807 % (2 ^ 31 - 1) = f % (2 ^ 31 - 1) := by
    rw [hfolds, Nat.mul_add_mod]
  -- Only a multiple of the modulus is folded to it, and so one subtraction is enough.
  have hne : f ≠ 2 ^ 31 - 1 := by
    intro hsame
    rw [hsame, ← Nat.mul_succ] at hfolds
    exact hg.not_dvd (Dvd.intro _ hfolds.symm)
  rw [hmod]
  split
  · next hover =>
    rw [Nat.mod_eq_sub_mod (Nat.le_of_lt hover), Nat.mod_eq_of_lt]
    exact Nat.sub_lt_left_of_lt_add (Nat.le_of_lt hover) hfew
  · next hover =>
    exact (Nat.mod_eq_of_lt (Nat.lt_of_le_of_ne (Nat.not_lt.mp hover) hne)).symm

theorem Live.step (hg : g.Live) : g.step.Live where
  pos := by
    rw [hg.step_toNat]
    exact Nat.pos_of_ne_zero fun hzero => hg.not_dvd (Nat.dvd_of_mod_eq_zero hzero)
  le := by
    rw [hg.step_toNat]
    exact Nat.le_of_lt_succ (Nat.mod_lt _ (by decide))

/-! ## Any number of steps -/

theorem steps_succ (g : Lehmer) (n : Nat) : g.steps (n + 1) = (g.steps n).step := by
  induction n generalizing g with
  | zero => rfl
  | succ n ih => exact ih g.step

theorem Live.steps (hg : g.Live) (n : Nat) : (g.steps n).Live := by
  induction n with
  | zero => exact hg
  | succ n ih =>
    rw [steps_succ]
    exact ih.step

/-- **Steps multiply by a power of 16807.** -/
theorem Live.steps_toNat (hg : g.Live) (n : Nat) :
    (g.steps n).seed.toNat = g.seed.toNat * 16807 ^ n % (2 ^ 31 - 1) := by
  induction n with
  | zero =>
    rw [pow_zero, mul_one]
    exact (Nat.mod_eq_of_lt hg.lt).symm
  | succ n ih =>
    rw [steps_succ, (hg.steps n).step_toNat, ih, Nat.mod_mul_mod, pow_succ 16807, mul_assoc]

/-- The value that is drawn next is the next state. -/
theorem next_steps (g : Lehmer) (n : Nat) : (g.steps n).next.1 = (g.steps (n + 1)).seed := by
  rw [steps_succ]
  rfl

/-! ## The cycle -/

/-- The prime divisors of the number of states on the cycle. -/
theorem mem_of_prime_dvd {q : Nat} (hq : q.Prime) (hdvd : q ∣ 2147483647 - 1) :
    q ∈ [2, 3, 3, 7, 11, 31, 151, 331] := by
  refine mem_list_primes_of_dvd_prod hq.prime (fun p hp => ?_) hdvd
  simp only [List.mem_cons, List.not_mem_nil, or_false] at hp
  rcases hp with rfl | rfl | rfl | rfl | rfl | rfl | rfl | rfl <;>
    exact Nat.Prime.prime (by norm_num)

theorem multiplier_pow : (16807 : ZMod 2147483647) ^ (2147483647 - 1) = 1 := by
  norm_num
  reduce_mod_char

theorem multiplier_pow_ne {q : Nat} (hq : q.Prime) (hdvd : q ∣ 2147483647 - 1) :
    (16807 : ZMod 2147483647) ^ ((2147483647 - 1) / q) ≠ 1 := by
  have hmem := mem_of_prime_dvd hq hdvd
  simp only [List.mem_cons, List.not_mem_nil, or_false] at hmem
  rcases hmem with rfl | rfl | rfl | rfl | rfl | rfl | rfl | rfl <;> norm_num <;>
    reduce_mod_char <;> decide

/-- **The powers of 16807 are all remainders but 0.** -/
theorem orderOf_multiplier : orderOf (16807 : ZMod 2147483647) = 2 ^ 31 - 2 :=
  orderOf_eq_of_pow_and_pow_div_prime (by decide) multiplier_pow
    fun _ hq hdvd => multiplier_pow_ne hq hdvd

theorem prime_modulus : Nat.Prime 2147483647 :=
  lucas_primality _ 16807 multiplier_pow fun _ hq hdvd => multiplier_pow_ne hq hdvd

instance : Fact (Nat.Prime 2147483647) := ⟨prime_modulus⟩

theorem Live.cast_ne_zero (hg : g.Live) : (g.seed.toNat : ZMod 2147483647) ≠ 0 := by
  rw [Ne, ZMod.natCast_eq_zero_iff]
  intro hdvd
  exact hg.not_dvd (Dvd.dvd.mul_right hdvd 16807)

theorem seed_inj : g.seed = k.seed ↔ g = k := by
  obtain ⟨seed⟩ := g
  obtain ⟨seed'⟩ := k
  rw [mk.injEq]

/-- A state is known by its remainder. -/
theorem Live.eq_iff_cast (hg : g.Live) (hk : k.Live) :
    g = k ↔ (g.seed.toNat : ZMod 2147483647) = k.seed.toNat := by
  have hlt : ∀ {g : Lehmer}, g.Live → g.seed.toNat % 2147483647 = g.seed.toNat :=
    fun hg => Nat.mod_eq_of_lt hg.lt
  rw [ZMod.natCast_eq_natCast_iff', hlt hg, hlt hk, UInt32.toNat_inj, seed_inj]

theorem Live.steps_cast (hg : g.Live) (n : Nat) :
    ((g.steps n).seed.toNat : ZMod 2147483647) = g.seed.toNat * 16807 ^ n := by
  rw [hg.steps_toNat, ZMod.natCast_mod]
  push_cast
  rfl

/-- **A state comes back after as many steps as there are states on the cycle**, and not before. -/
theorem Live.steps_eq_iff (hg : g.Live) (m n : Nat) :
    g.steps m = g.steps n ↔ m ≡ n [MOD 2 ^ 31 - 2] := by
  have hunit : IsOfFinOrder (16807 : ZMod 2147483647) := by
    rw [← orderOf_pos_iff, orderOf_multiplier]
    decide
  rw [(hg.steps m).eq_iff_cast (hg.steps n), hg.steps_cast, hg.steps_cast,
    mul_right_inj' hg.cast_ne_zero, hunit.pow_eq_pow_iff_modEq, orderOf_multiplier]

/-- **Every state on the cycle is reached.** -/
theorem Live.exists_steps (hg : g.Live) {v : Nat} (hpos : 1 ≤ v) (hle : v ≤ 2 ^ 31 - 2) :
    ∃ n < 2 ^ 31 - 2, (g.steps n).seed.toNat = v := by
  have hmaps : Set.MapsTo (fun n => (g.steps n).seed.toNat) (Finset.range (2 ^ 31 - 2))
      (Finset.Icc 1 (2 ^ 31 - 2)) := by
    intro n _
    exact Finset.mem_coe.mpr (Finset.mem_Icc.mpr ⟨(hg.steps n).pos, (hg.steps n).le⟩)
  have hinj : Set.InjOn (fun n => (g.steps n).seed.toNat) (Finset.range (2 ^ 31 - 2)) := by
    intro m hm n hn hsame
    have hmod := (hg.steps_eq_iff m n).mp
      (((hg.steps m).eq_iff_cast (hg.steps n)).mpr (congrArg _ hsame))
    exact hmod.eq_of_lt_of_lt (Finset.mem_range.mp hm) (Finset.mem_range.mp hn)
  have hcard : (Finset.Icc 1 (2 ^ 31 - 2)).card ≤ (Finset.range (2 ^ 31 - 2)).card := by
    rw [Nat.card_Icc, Finset.card_range]
    omega
  obtain ⟨n, hn, hv⟩ := Finset.surjOn_of_injOn_of_card_le _ hmaps hinj hcard
    (Finset.mem_coe.mpr (Finset.mem_Icc.mpr ⟨hpos, hle⟩))
  exact ⟨n, Finset.mem_range.mp (Finset.mem_coe.mp hn), hv⟩

/-! ## Seeds -/

/-- What a generator is to do from the state it begins with. -/
structure Cycles (g : Lehmer) : Prop where
  /-- The values are that state times powers of 16807. -/
  values : ∀ n, (g.steps n).next.1.toNat = g.seed.toNat * 16807 ^ (n + 1) % (2 ^ 31 - 1)
  range : ∀ n, 1 ≤ (g.steps n).next.1.toNat ∧ (g.steps n).next.1.toNat ≤ 2 ^ 31 - 2
  /-- No value comes back before all others have been there. -/
  period : ∀ m n, (g.steps m).next.1 = (g.steps n).next.1 ↔ m ≡ n [MOD 2 ^ 31 - 2]
  reaches : ∀ v, 1 ≤ v → v ≤ 2 ^ 31 - 2 → ∃ n < 2 ^ 31 - 2, (g.steps n).next.1.toNat = v

theorem Live.cycles (hg : g.Live) : g.Cycles where
  values n := by rw [next_steps, hg.steps_toNat]
  range n := by
    rw [next_steps]
    exact ⟨(hg.steps (n + 1)).pos, (hg.steps (n + 1)).le⟩
  period m n := by
    rw [next_steps, next_steps, seed_inj]
    exact hg.step.steps_eq_iff m n
  reaches v hpos hle := by
    simp only [next_steps]
    exact hg.step.exists_steps hpos hle

/-- The modulus is a fixed point. -/
theorem steps_of_eq_modulus (hg : g.seed = modulus) (n : Nat) : g.steps n = g := by
  have hstep : g.step = g := by
    obtain ⟨seed⟩ := g
    cases hg
    decide
  induction n with
  | zero => rfl
  | succ n ih => rw [steps_succ, ih, hstep]

theorem ofSeed_toNat (s : UInt32) :
    (ofSeed s).seed.toNat = if s.toNat % 2 ^ 31 = 0 then 1 else s.toNat % 2 ^ 31 := by
  have hlow : (s &&& modulus).toNat = s.toNat % 2 ^ 31 := by
    rw [UInt32.toNat_and]
    exact Nat.and_two_pow_sub_one_eq_mod _ 31
  rw [← hlow]
  unfold ofSeed
  by_cases hzero : s &&& modulus = 0
  · simp only [hzero, ne_eq, not_true_eq_false, if_false]
    rfl
  · have hnat : (s &&& modulus).toNat ≠ 0 := fun h => hzero (UInt32.toNat_inj.mp h)
    simp only [ne_eq, hzero, not_false_eq_true, if_true, if_neg hnat]

/-- **A seed begins a cycle just if not all of its lower 31 bits are set.** If they are, every value
is the modulus. -/
theorem ofSeed_cycles (s : UInt32) :
    ((ofSeed s).Cycles ↔ s.toNat % 2 ^ 31 ≠ 2 ^ 31 - 1)
      ∧ (s.toNat % 2 ^ 31 = 2 ^ 31 - 1 → ∀ n, ((ofSeed s).steps n).next.1 = modulus) := by
  have hseed := ofSeed_toNat s
  have hstuck : s.toNat % 2 ^ 31 = 2 ^ 31 - 1 → ∀ n, ((ofSeed s).steps n).next.1 = modulus := by
    intro hall n
    have hmodulus : (ofSeed s).seed = modulus := by
      rw [← UInt32.toNat_inj, hseed, hall]
      rfl
    rw [next_steps, steps_of_eq_modulus hmodulus, hmodulus]
  refine ⟨⟨fun hcycles hall => ?_, fun hsome => ?_⟩, hstuck⟩
  · have hle := (hcycles.range 0).2
    rw [hstuck hall] at hle
    exact absurd hle (by decide)
  · have hlive : (ofSeed s).Live := by
      constructor <;> rw [hseed] <;> split <;> omega
    exact hlive.cycles

/-- The greatest seed of 31 bits stays where it is. -/
theorem ofSeed_greatest_stuck :
    (ofSeed 2147483647).next = (2147483647, ofSeed 2147483647)
      ∧ ¬ (ofSeed 2147483647).Cycles := by
  refine ⟨by decide, fun hcycles => ?_⟩
  exact absurd (hcycles.range 0).2 (by decide)

end Lehmer
end PageRegions
