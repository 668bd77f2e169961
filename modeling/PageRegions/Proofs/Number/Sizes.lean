import Mathlib.Data.Int.ModEq
import PageRegions.Proofs.Number.Quantities

/-!
# What sizes amount to

A size is a decimal number that a suffix may follow. The text alone says how many bytes that is
(`Denotes`): the number as it is written, its sign included, times the power of two that the suffix
stands for. Here the readers are held against that.

They compare only the number with the range of a word, and shift afterwards. So a size is read for
what it is as long as it fits, and one that does not fit is refused if its number does not, either.
In between is the gap (`slips`): the number fits a word, the size does not, and what is read is the
size modulo the range of the word. A minus sign that blanks stand in front of falls into it too,
because the unsigned readers look for one in the first character only, and negate modulo a word
where they come upon it later.
-/

set_option autoImplicit false

namespace PageRegions

/-! ## Numbers -/

namespace Reading

variable {s t : List Char} {n : Int}

/-- The number that a text spells: blanks, a sign and decimal digits. -/
inductive Spells : List Char → Int → Prop
  | intro {blanks sign ds : List Char} (blank : ∀ c ∈ blanks, Text.isBlank c = true)
      (isSign : IsSign sign) (nonempty : ds ≠ []) (digits : Digits digit? ds) :
      Spells (blanks ++ (sign ++ ds))
        (if sign = ['-'] then -(Nat.ofDigitChars 10 ds 0 : Int) else Nat.ofDigitChars 10 ds 0)

theorem Spells.isInteger (hs : Spells s n) : IsInteger s := by
  obtain ⟨hblank, hsign, hne, hds⟩ := hs
  exact .intro hblank hsign ⟨hne, hds⟩

theorem IsInteger.exists_spells (hs : IsInteger s) : ∃ n, Spells s n := by
  obtain ⟨hblank, hsign, hne, hds⟩ := hs
  exact ⟨_, .intro hblank hsign hne hds⟩

/-- Digits amount to their decimal value. -/
theorem takeDigits_value {ds : List Char} (hds : Digits digit? ds) (acc count : Nat) :
    takeDigits 10 digit? acc count ds = (Nat.ofDigitChars 10 ds acc, count + ds.length, []) := by
  induction ds generalizing acc count with
  | nil => rfl
  | cons c ds ih =>
    have hmore : Digits digit? ds := fun x hx => hds x (List.mem_cons_of_mem _ hx)
    have hdigit : digit? c = some (c.toNat - '0'.toNat) := by
      have hsome := hds c List.mem_cons_self
      unfold digit? at hsome ⊢
      split at hsome
      · next hc => exact if_pos hc
      · cases hsome
    rw [takeDigits, hdigit]
    simp only
    rw [ih hmore, Nat.ofDigitChars_cons, Nat.mul_comm, List.length_cons, Nat.add_assoc,
      Nat.add_comm 1]

/-- **A number is read as it is spelled**, whatever follows it, if that is no digit. -/
theorem Spells.read (hs : Spells s n) : ∃ i : Integer, i.value = n ∧ i.magnitude = n.natAbs
    ∧ i.taken = s.length ∧ ∀ rest, Stops digit? rest → integer? (s ++ rest) = some i := by
  obtain ⟨i, htaken, hall⟩ := integer?_append hs.isInteger
  have hnul := hs.isInteger.not_mem_nul
  have hread := hall [] stops_nil
  obtain @⟨blanks, sign, ds, hblank, hsign, hne, hds⟩ := hs
  have hlead := leads_of_digits hne hds
  have hbody : takeSign ((blanks ++ (sign ++ ds)).dropWhile Text.isBlank)
      = (decide (sign = ['-']), ds) := by
    have hstop : (sign ++ ds).dropWhile Text.isBlank = sign ++ ds := by
      obtain ⟨c, more, rfl, hc, -⟩ := hlead
      rcases hsign with rfl | rfl | rfl
      · exact List.dropWhile_cons_of_neg (Bool.eq_false_iff.mp hc)
      · rfl
      · rfl
    have hsigned := takeSign_append hsign hlead []
    rw [List.append_nil] at hsigned
    rw [List.dropWhile_append_of_pos hblank, hstop, hsigned]
  refine ⟨i, ?_, ?_, htaken, hall⟩
  all_goals
    obtain ⟨d, more, rfl⟩ := List.exists_cons_of_ne_nil hne
    unfold integer? at hread
    rw [List.append_nil, beforeNul_of_not_mem hnul] at hread
    simp only [hbody, takeDigits_value hds] at hread
    rw [← Option.some.inj hread]
  · unfold Integer.value
    simp only [decide_eq_true_eq]
  · split <;> simp

/-- A word that a minus sign negates has the value of the integer, modulo the range of words. -/
theorem Integer.word_modEq (i : Integer) :
    (((if i.negative then 0 - UInt64.ofNat i.magnitude else UInt64.ofNat i.magnitude).toNat : Nat)
      : Int) ≡ i.value [ZMOD 2 ^ 64] := by
  unfold Integer.value Int.ModEq
  split
  · rw [UInt64.toNat_sub, UInt64.toNat_zero, UInt64.toNat_ofNat']
    omega
  · rw [UInt64.toNat_ofNat']
    omega

end Reading

/-! ## Sizes -/

namespace Quantity

open Reading

variable {greatest : Nat} {whole : Bool} {s : List Char} {n m : Int} {shift shift' : Nat}

/-- A size, by its number and the shift of its suffix: the number alone, or the number and a suffix
that shifts by no more than `greatest`. Of a `whole` size nothing is left behind the suffix. -/
inductive Sized (greatest : Nat) (whole : Bool) : List Char → Int → Nat → Prop
  | plain {s : List Char} {n : Int} (spells : Spells s n) : Sized greatest whole s n 0
  | suffixed {t more : List Char} {c : Char} {n : Int} {shift : Nat} (spells : Spells t n)
      (suffix : suffixShift? c = some shift) (le : shift ≤ greatest)
      (ends : whole = true → more = []) : Sized greatest whole (t ++ c :: more) n shift

/-- What the readers find in a size: its number, and behind it the suffix. -/
theorem Sized.read (hs : Sized greatest whole s n shift) :
    ∃ i : Integer, integer? s = some i ∧ i.value = n ∧ i.magnitude = n.natAbs
      ∧ ((shift = 0 ∧ s.drop i.taken = [])
        ∨ ∃ c more, s.drop i.taken = c :: more ∧ suffixShift? c = some shift ∧ shift ≤ greatest
          ∧ (whole = true → more = [])) := by
  cases hs with
  | plain hspells =>
    obtain ⟨i, hvalue, hmagnitude, htaken, hall⟩ := hspells.read
    have hread := hall [] stops_nil
    rw [List.append_nil] at hread
    exact ⟨i, hread, hvalue, hmagnitude, Or.inl ⟨rfl, by rw [htaken, List.drop_length]⟩⟩
  | @suffixed t more c _ _ hspells hsuffix hle hends =>
    obtain ⟨i, hvalue, hmagnitude, htaken, hall⟩ := hspells.read
    refine ⟨i, hall _ (stops_suffix hsuffix more), hvalue, hmagnitude, Or.inr ⟨c, more, ?_, hsuffix,
      hle, hends⟩⟩
    rw [htaken, List.drop_left]

/-- A text is a size in one way only. -/
theorem Sized.unique (hs : Sized greatest whole s n shift) (hs' : Sized greatest whole s m shift') :
    n = m ∧ shift = shift' := by
  obtain ⟨i, hread, rfl, -, hrest⟩ := hs.read
  obtain ⟨i', hread', rfl, -, hrest'⟩ := hs'.read
  obtain rfl : i = i' := Option.some.inj (hread.symm.trans hread')
  refine ⟨rfl, ?_⟩
  rcases hrest with ⟨rfl, hnone⟩ | ⟨c, more, hsome, hshift, -⟩ <;>
    rcases hrest' with ⟨rfl, hnone'⟩ | ⟨c', more', hsome', hshift', -⟩
  · rfl
  · rw [hnone] at hsome'
    cases hsome'
  · rw [hnone'] at hsome
    cases hsome
  · obtain ⟨rfl, -⟩ := List.cons.inj (hsome.symm.trans hsome')
    exact Option.some.inj (hshift.symm.trans hshift')

theorem IsQuantity.exists_sized (hs : IsQuantity greatest s) :
    ∃ n shift, Sized greatest true s n shift := by
  rcases hs with hint | ⟨t, c, shift, rfl, hint, hshift, hle⟩
  · obtain ⟨n, hspells⟩ := hint.exists_spells
    exact ⟨n, 0, .plain hspells⟩
  · obtain ⟨n, hspells⟩ := hint.exists_spells
    exact ⟨n, shift, .suffixed hspells hshift hle fun _ => rfl⟩

/-! ## Readers of sizes -/

/-- What a reader of sizes goes by: the suffixes it knows, whether they end the text, the least
value it may answer with and how many values there are from there on, and the sizes that get past
its checks. -/
structure Layout where
  greatest : Nat
  whole : Bool
  least : Int
  period : Int
  passes : List Char → Int → Nat → Prop

namespace Layout

variable {layout : Layout} {text : String} {d e : Int}

/-- The size that a text stands for. -/
def Denotes (layout : Layout) (text : String) (d : Int) : Prop :=
  ∃ n shift, Sized layout.greatest layout.whole text.toList n shift ∧ d = n * 2 ^ shift

def Holds (layout : Layout) (d : Int) : Prop :=
  layout.least ≤ d ∧ d < layout.least + layout.period

instance (layout : Layout) (d : Int) : Decidable (layout.Holds d) :=
  inferInstanceAs (Decidable (_ ∧ _))

/-- A size that gets past the checks, and that the reader has no value for. -/
def Slips (layout : Layout) (text : String) : Prop :=
  ∃ n shift, Sized layout.greatest layout.whole text.toList n shift
    ∧ layout.passes text.toList n shift ∧ ¬ layout.Holds (n * 2 ^ shift)

theorem Denotes.unique (hd : layout.Denotes text d) (he : layout.Denotes text e) : d = e := by
  obtain ⟨n, shift, hs, rfl⟩ := hd
  obtain ⟨m, shift', hs', rfl⟩ := he
  obtain ⟨rfl, rfl⟩ := hs.unique hs'
  rfl

/-- No two values of a reader are the same modulo their number. -/
theorem Holds.eq_of_modEq (hd : layout.Holds d) (he : layout.Holds e)
    (hmod : d ≡ e [ZMOD layout.period]) : d = e := by
  obtain ⟨hd, hd'⟩ := hd
  obtain ⟨he, he'⟩ := he
  have hshifted := hmod.sub_right layout.least
  unfold Int.ModEq at hshifted
  rw [Int.emod_eq_of_lt (by omega) (by omega), Int.emod_eq_of_lt (by omega) (by omega)] at hshifted
  omega

end Layout

/-- What a reader answers to a text. -/
structure Reads {α : Type} (layout : Layout) (value : α → Int) (text : String)
    (answer : Except NumberFault α) : Prop where
  /-- A text that is accepted stands for a size, and only for one. It is read for that size just if
  there is a value for it. -/
  accepted : ∀ v, answer = .ok v →
    ∃ d, (∀ e, layout.Denotes text e ↔ e = d) ∧ (value v = d ↔ layout.Holds d)
  /-- A size that there is no value for is refused, unless it slips. -/
  refused : ∀ d, layout.Denotes text d → ¬ layout.Holds d →
    ((∃ fault, answer = .error fault) ↔ ¬ layout.Slips text)
  /-- A size that gets past the checks is read modulo the number of values. -/
  taken : ∀ n shift, Sized layout.greatest layout.whole text.toList n shift →
    layout.passes text.toList n shift →
      ∃ v, answer = .ok v ∧ layout.Holds (value v) ∧ value v ≡ n * 2 ^ shift [ZMOD layout.period]

/-- A size is answered to by the checks, and anything else with a fault. -/
theorem Reads.of_sized {α : Type} {layout : Layout} {value : α → Int} {text : String}
    {answer : Except NumberFault α}
    (hsized : ∀ v, answer = .ok v →
      ∃ n shift, Sized layout.greatest layout.whole text.toList n shift)
    (htaken : ∀ n shift, Sized layout.greatest layout.whole text.toList n shift →
      layout.passes text.toList n shift → ∃ v, answer = .ok v ∧ layout.Holds (value v)
        ∧ value v ≡ n * 2 ^ shift [ZMOD layout.period])
    (hchecked : ∀ n shift, Sized layout.greatest layout.whole text.toList n shift →
      ¬ layout.passes text.toList n shift → ∃ fault, answer = .error fault) :
    Reads layout value text answer where
  accepted v hanswer := by
    obtain ⟨n, shift, hs⟩ := hsized v hanswer
    have hden : layout.Denotes text (n * 2 ^ shift) := ⟨n, shift, hs, rfl⟩
    have hpasses : layout.passes text.toList n shift := by
      by_contra hnot
      obtain ⟨fault, hfault⟩ := hchecked n shift hs hnot
      rw [hanswer] at hfault
      cases hfault
    obtain ⟨v', hanswer', hholds, hmod⟩ := htaken n shift hs hpasses
    obtain rfl : v = v' := Except.ok.inj (hanswer.symm.trans hanswer')
    refine ⟨n * 2 ^ shift, fun e => ⟨fun he => he.unique hden, fun he => he ▸ hden⟩, ?_⟩
    exact ⟨fun heq => heq ▸ hholds, fun hfits => hholds.eq_of_modEq hfits hmod⟩
  refused d hden hfits := by
    obtain ⟨n, shift, hs, rfl⟩ := hden
    constructor
    · rintro ⟨fault, hfault⟩ ⟨n', shift', hs', hpasses, -⟩
      obtain ⟨v, hanswer, -⟩ := htaken n' shift' hs' hpasses
      rw [hfault] at hanswer
      cases hanswer
    · intro hslips
      exact hchecked n shift hs fun hpasses => hslips ⟨n, shift, hs, hpasses, hfits⟩
  taken := htaken

/-! ## Unsigned sizes -/

def words64 : Layout where
  greatest := 40
  whole := true
  least := 0
  period := 2 ^ 64
  passes s n _ := s.head? ≠ some '-' ∧ n.natAbs < 2 ^ 64

/-- The same, but the size modulo 2 to the power 64 has to be one of 32 bits. -/
def words32 : Layout where
  greatest := 40
  whole := true
  least := 0
  period := 2 ^ 32
  passes s n shift :=
    (s.head? ≠ some '-' ∧ n.natAbs < 2 ^ 64) ∧ n * 2 ^ shift % 2 ^ 64 < 2 ^ 32

theorem toNat_eq_emod {x : UInt64} {d : Int} (hmod : (x.toNat : Int) ≡ d [ZMOD 2 ^ 64]) :
    (x.toNat : Int) = d % 2 ^ 64 := by
  have hlt := x.toNat_lt
  rw [← hmod.eq, Int.emod_eq_of_lt (Int.natCast_nonneg _) (by omega)]

theorem shiftLeft_modEq (x : UInt64) (hshift : shift < 64) :
    ((x <<< UInt64.ofNat shift).toNat : Int) ≡ x.toNat * 2 ^ shift [ZMOD 2 ^ 64] := by
  rw [UInt64.toNat_shiftLeft, UInt64.toNat_ofNat_of_lt' (hshift.trans (by decide)),
    Nat.mod_eq_of_lt hshift, Nat.shiftLeft_eq]
  unfold Int.ModEq
  push_cast
  exact Int.emod_emod_of_dvd _ (dvd_refl _)

/-- The unsigned reader checks the number, and then the suffix shifts a word. -/
theorem unsigned64_of_sized {text : String} (hs : Sized 40 true text.toList n shift)
    (hminus : text.toList.head? ≠ some '-') (hsmall : n.natAbs < 2 ^ 64) :
    ∃ v, unsigned64 text = .ok v ∧ (v.toNat : Int) ≡ n * 2 ^ shift [ZMOD 2 ^ 64] := by
  obtain ⟨i, hread, rfl, hmagnitude, hrest⟩ := hs.read
  have hword := i.word_modEq
  have hrange : ¬ 1 <<< 64 ≤ i.magnitude := by
    rw [hmagnitude]
    omega
  unfold unsigned64 Reading.unsigned64
  simp only [if_neg hminus, hread, if_neg hrange]
  rcases hrest with ⟨rfl, hdrop⟩ | ⟨c, more, hdrop, hshift, hle, hends⟩
  · simp only [hdrop]
    refine ⟨_, rfl, ?_⟩
    rw [pow_zero, mul_one]
    exact hword
  · obtain rfl := hends rfl
    simp only [hdrop, hshift]
    exact ⟨_, rfl, (shiftLeft_modEq _ (by omega)).trans (hword.mul_right _)⟩

theorem unsigned64_of_large {text : String} (hs : Sized 40 true text.toList n shift)
    (hlarge : ¬ (text.toList.head? ≠ some '-' ∧ n.natAbs < 2 ^ 64)) :
    ∃ fault, unsigned64 text = .error fault := by
  obtain ⟨i, hread, rfl, hmagnitude, -⟩ := hs.read
  unfold unsigned64 Reading.unsigned64
  by_cases hminus : text.toList.head? = some '-'
  · exact ⟨_, if_pos hminus⟩
  · have hrange : 1 <<< 64 ≤ i.magnitude := by
      have hnot : ¬ i.value.natAbs < 2 ^ 64 := fun hsmall => hlarge ⟨hminus, hsmall⟩
      rw [hmagnitude]
      omega
    simp only [if_neg hminus, hread, if_pos hrange]
    exact ⟨_, rfl⟩

theorem unsigned64_reads (text : String) :
    Reads words64 (fun v : UInt64 => (v.toNat : Int)) text (unsigned64 text) := by
  refine Reads.of_sized (fun v hread => (unsigned64_ok hread).2.exists_sized)
    (fun n shift hs hpasses => ?_) fun n shift hs hnot => unsigned64_of_large hs hnot
  obtain ⟨v, hread, hmod⟩ := unsigned64_of_sized hs hpasses.1 hpasses.2
  refine ⟨v, hread, ⟨Int.natCast_nonneg _, ?_⟩, hmod⟩
  change (v.toNat : Int) < 0 + 2 ^ 64
  have hlt := v.toNat_lt
  omega

theorem unsigned32_reads (text : String) :
    Reads words32 (fun v : UInt32 => (v.toNat : Int)) text (unsigned32 text) := by
  refine Reads.of_sized (fun v hread => (unsigned32_ok hread).2.exists_sized)
    (fun n shift hs hpasses => ?_) fun n shift hs hnot => ?_
  · obtain ⟨⟨hminus, hsmall⟩, hword⟩ := hpasses
    obtain ⟨wide, hread, hmod⟩ := unsigned64_of_sized hs hminus hsmall
    rw [← toNat_eq_emod hmod] at hword
    have hnarrow : wide.toNat < 1 <<< 32 := by omega
    have hvalue : wide.toUInt32.toNat = wide.toNat :=
      (UInt64.toNat_toUInt32 wide).trans (Nat.mod_eq_of_lt hnarrow)
    refine ⟨wide.toUInt32, by simp only [unsigned32, hread, if_pos hnarrow], ⟨?_, ?_⟩, ?_⟩
    · exact Int.natCast_nonneg _
    · change (wide.toUInt32.toNat : Int) < 0 + 2 ^ 32
      omega
    · change (wide.toUInt32.toNat : Int) ≡ _ [ZMOD 2 ^ 32]
      rw [hvalue]
      exact hmod.of_dvd (by decide)
  · unfold unsigned32
    by_cases hpasses : text.toList.head? ≠ some '-' ∧ n.natAbs < 2 ^ 64
    · obtain ⟨wide, hread, hmod⟩ := unsigned64_of_sized hs hpasses.1 hpasses.2
      have hnarrow : ¬ wide.toNat < 1 <<< 32 := by
        intro hlt
        refine hnot ⟨hpasses, ?_⟩
        rw [← toNat_eq_emod hmod]
        omega
      simp only [hread, if_neg hnarrow]
      exact ⟨_, rfl⟩
    · obtain ⟨fault, hread⟩ := unsigned64_of_large hs hpasses
      simp only [hread]
      exact ⟨_, rfl⟩

/-! ## Signed sizes -/

def integers32 : Layout where
  greatest := 30
  whole := false
  least := -2 ^ 31
  period := 2 ^ 32
  passes _ n _ := -2 ^ 31 ≤ n ∧ n < 2 ^ 31

theorem exists_sized_of_signed32 {text : String} {v : Int32} (hread : signed32 text = .ok v) :
    ∃ n shift, Sized 30 false text.toList n shift := by
  rcases signed32_ok hread with hint | ⟨q, more, hsplit, t, c, shift, rfl, hint, hshift, hle⟩
  · obtain ⟨n, hspells⟩ := hint.exists_spells
    exact ⟨n, 0, .plain hspells⟩
  · obtain ⟨n, hspells⟩ := hint.exists_spells
    rw [List.append_assoc, List.singleton_append] at hsplit
    rw [hsplit]
    exact ⟨n, shift, .suffixed hspells hshift hle nofun⟩

theorem int32_modEq (d : Int) : (Int32.ofInt d).toInt ≡ d [ZMOD 2 ^ 32] := by
  rw [Int32.toInt_ofInt]
  exact Int.bmod_emod

theorem signed32_reads (text : String) :
    Reads integers32 Int32.toInt text (signed32 text) := by
  refine Reads.of_sized (fun v hread => exists_sized_of_signed32 hread)
    (fun n shift hs hpasses => ?_) fun n shift hs hnot => ?_
  · obtain ⟨v, hread, hmod⟩ : ∃ v, signed32 text = .ok v
        ∧ v.toInt ≡ n * 2 ^ shift [ZMOD 2 ^ 32] := by
      obtain ⟨hlow, hhigh⟩ := hpasses
      obtain ⟨i, hread, rfl, -, hrest⟩ := hs.read
      have hrange : (decide (i.value < Int32.minValue.toInt)
          || decide (Int32.maxValue.toInt < i.value)) = false := by
        rw [Bool.or_eq_false_iff, decide_eq_false_iff_not, decide_eq_false_iff_not]
        change ¬ i.value < -2147483648 ∧ ¬ 2147483647 < i.value
        omega
      unfold signed32 bounded
      simp only [hread, hrange, Bool.false_eq_true, if_false]
      rcases hrest with ⟨rfl, hdrop⟩ | ⟨c, more, hdrop, hshift, hle, -⟩
      · simp only [hdrop]
        refine ⟨_, rfl, ?_⟩
        rw [pow_zero, mul_one]
        exact int32_modEq _
      · have hle : shift ≤ 30 := hle
        simp only [hdrop, hshift, if_pos hle]
        refine ⟨_, rfl, ?_⟩
        rw [Nat.one_shiftLeft]
        push_cast
        exact int32_modEq _
    refine ⟨v, hread, ⟨v.le_toInt, ?_⟩, hmod⟩
    change v.toInt < -2 ^ 31 + 2 ^ 32
    have hlt := v.toInt_lt
    omega
  · obtain ⟨i, hread, rfl, -, -⟩ := hs.read
    have hrange : (decide (i.value < Int32.minValue.toInt)
        || decide (Int32.maxValue.toInt < i.value)) = true := by
      rw [Bool.or_eq_true, decide_eq_true_eq, decide_eq_true_eq]
      change i.value < -2147483648 ∨ 2147483647 < i.value
      have hnot' : ¬ (-2 ^ 31 ≤ i.value ∧ i.value < 2 ^ 31) := hnot
      omega
    unfold signed32 bounded
    simp only [hread, hrange, if_true]
    exact ⟨_, rfl⟩

/-! ## All readers of sizes -/

/-- **Sizes are read for what they are, or modulo the range of a word.** What a reader accepts is a
size, and what it answers with is that size just if it has a value for it. Of the sizes that it has
no value for it refuses all but those that slip, and these it reads modulo the number of values. -/
theorem sizes_exact (text : String) :
    Reads words64 (fun v : UInt64 => (v.toNat : Int)) text (unsigned64 text)
      ∧ Reads words32 (fun v : UInt32 => (v.toNat : Int)) text (unsigned32 text)
      ∧ Reads integers32 Int32.toInt text (signed32 text) :=
  ⟨unsigned64_reads text, unsigned32_reads text, signed32_reads text⟩

/-- Twenty million terabytes, a negative number behind a blank and five gigabytes, each read as some
other size by a reader that has no value for it. -/
theorem sizes_slip :
    (words64.Denotes "20000000t" (20000000 * 2 ^ 40) ∧ ¬ words64.Holds (20000000 * 2 ^ 40)
      ∧ unsigned64 "20000000t" = .ok 3543488481810448384)
    ∧ (words64.Denotes " -1" (-1) ∧ ¬ words64.Holds (-1)
      ∧ unsigned64 " -1" = .ok 18446744073709551615)
    ∧ (integers32.Denotes "5g" (5 * 2 ^ 30) ∧ ¬ integers32.Holds (5 * 2 ^ 30)
      ∧ signed32 "5g" = .ok 1073741824) := by
  have hwide : Spells "20000000".toList 20000000 :=
    @Spells.intro [] [] "20000000".toList nofun (Or.inl rfl) (by decide) (by simp [Digits, digit?])
  have hnegative : Spells " -1".toList (-1) :=
    @Spells.intro [' '] ['-'] ['1'] (by simp [Text.isBlank]) (Or.inr (Or.inl rfl)) (by decide)
      (by simp [Digits, digit?])
  have hsigned : Spells "5".toList 5 :=
    @Spells.intro [] [] ['5'] nofun (Or.inl rfl) (by decide) (by simp [Digits, digit?])
  refine ⟨⟨?_, by decide, by decide⟩, ⟨?_, by decide, by decide⟩, ?_, by decide, by decide⟩
  · exact ⟨_, 40, .suffixed hwide (c := 't') rfl (le_refl _) fun _ => rfl, rfl⟩
  · exact ⟨_, 0, .plain hnegative, rfl⟩
  · exact ⟨_, 30, .suffixed hsigned (c := 'g') rfl (le_refl _) nofun, rfl⟩

end Quantity
end PageRegions
