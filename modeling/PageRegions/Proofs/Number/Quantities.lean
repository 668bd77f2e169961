import PageRegions.Proofs.Number.Literals

/-!
# What quantities look like

A quantity is an integer that a suffix may follow (`IsQuantity`). The unsigned readers take a text
just if it is one, and the floating-point reader takes a text just if it is a numeral of its kind;
all of them may still find it out of range.

The signed readers are not so strict. The 32-bit one looks at no character behind a suffix
(`signed32_append`), and the 64-bit one at none behind the number (`signed64_append`).
-/

set_option autoImplicit false

namespace PageRegions
namespace Quantity

open Reading

variable {text shorter : String} {q more : List Char}

/-- An integer with a suffix that shifts by no more than the given number of bits. -/
def IsSuffixed (greatest : Nat) (s : List Char) : Prop :=
  ∃ t c shift, s = t ++ [c] ∧ IsInteger t ∧ suffixShift? c = some shift ∧ shift ≤ greatest

def IsQuantity (greatest : Nat) (s : List Char) : Prop := IsInteger s ∨ IsSuffixed greatest s

theorem suffixShift?_le {c : Char} {shift : Nat} (h : suffixShift? c = some shift) :
    shift ≤ 40 := by
  unfold suffixShift? at h
  split at h <;> cases h <;> decide

/-- A suffix is no digit, so the integer in front of it ends there. -/
theorem stops_suffix {c : Char} {shift : Nat} (h : suffixShift? c = some shift) (t : List Char) :
    Stops digit? (c :: t) := by
  refine stops_cons ?_
  by_contra hdigit
  have hall : ∀ c ∈ "0123456789".toList, suffixShift? c = none :=
    List.forall_iff_forall_mem.mp (by decide)
  rw [hall c (mem_of_digit? (Option.isSome_iff_ne_none.mpr hdigit))] at h
  cases h

/-- What the reader of integers leaves behind of a text, if it finds one. -/
theorem exists_drop {n : Integer} (h : integer? text.toList = some n) :
    ∃ t, text.toList = t ++ text.toList.drop n.taken ∧ IsInteger t := by
  obtain ⟨t, rest, hsplit, hint, -, htaken⟩ := exists_of_integer? h
  refine ⟨t, ?_, hint⟩
  rw [htaken, hsplit, List.drop_left]

/-- Of a quantity it leaves the suffix. -/
theorem IsQuantity.read {greatest : Nat} {s : List Char} (h : IsQuantity greatest s) :
    ∃ n, integer? s = some n ∧ (s.drop n.taken = []
      ∨ ∃ c shift, s.drop n.taken = [c] ∧ suffixShift? c = some shift ∧ shift ≤ greatest) := by
  rcases h with hint | ⟨t, c, shift, rfl, hint, hshift, hle⟩
  · obtain ⟨n, htaken, hall⟩ := integer?_append hint
    have hread := hall [] stops_nil
    rw [List.append_nil] at hread
    exact ⟨n, hread, Or.inl (by rw [htaken, List.drop_length])⟩
  · obtain ⟨n, htaken, hall⟩ := integer?_append hint
    exact ⟨n, hall [c] (stops_suffix hshift []), Or.inr
      ⟨c, shift, by rw [htaken, List.drop_left], hshift, hle⟩⟩

/-! ## Unsigned quantities -/

theorem unsigned64_ok {n : UInt64} (h : unsigned64 text = .ok n) :
    text.toList.head? ≠ some '-' ∧ IsQuantity 40 text.toList := by
  unfold unsigned64 Reading.unsigned64 at h
  simp only at h
  split at h
  · cases h
  · next hminus =>
    refine ⟨hminus, ?_⟩
    rcases hread : integer? text.toList with _ | i
    · simp only [hread] at h
      cases h
    · obtain ⟨t, hsplit, hint⟩ := exists_drop hread
      simp only [hread] at h
      split at h
      · cases h
      · next heq =>
        split at heq
        · cases heq
        · cases heq
          split at h
          · next hdrop =>
            rw [hdrop, List.append_nil] at hsplit
            rw [hsplit]
            exact Or.inl hint
          · next c hdrop =>
            split at h
            · next shift hshift =>
              rw [hdrop] at hsplit
              exact Or.inr ⟨t, c, shift, hsplit, hint, hshift, suffixShift?_le hshift⟩
            · cases h
          · cases h

theorem unsigned64_whole (hminus : text.toList.head? ≠ some '-')
    (htext : IsQuantity 40 text.toList) :
    (∃ n, unsigned64 text = .ok n) ∨ ∃ subject, unsigned64 text = .error (.outOfRange subject) := by
  obtain ⟨n, hread, hrest⟩ := htext.read
  unfold unsigned64 Reading.unsigned64
  simp only [if_neg hminus, hread]
  by_cases hrange : 1 <<< 64 ≤ n.magnitude
  · simp only [if_pos hrange]
    exact Or.inr ⟨_, rfl⟩
  · simp only [if_neg hrange]
    rcases hrest with hrest | ⟨c, shift, hrest, hshift, -⟩
    · simp only [hrest]
      exact Or.inl ⟨_, rfl⟩
    · simp only [hrest, hshift]
      exact Or.inl ⟨_, rfl⟩

theorem unsigned32_ok {n : UInt32} (h : unsigned32 text = .ok n) :
    text.toList.head? ≠ some '-' ∧ IsQuantity 40 text.toList := by
  unfold unsigned32 at h
  split at h
  · cases h
  · next wide hwide => exact unsigned64_ok hwide

theorem unsigned32_whole (hminus : text.toList.head? ≠ some '-')
    (htext : IsQuantity 40 text.toList) :
    (∃ n, unsigned32 text = .ok n) ∨ ∃ subject, unsigned32 text = .error (.outOfRange subject) := by
  unfold unsigned32
  rcases unsigned64_whole hminus htext with ⟨n, hwide⟩ | ⟨subject, hwide⟩
  · simp only [hwide]
    split
    · exact Or.inl ⟨_, rfl⟩
    · exact Or.inr ⟨_, rfl⟩
  · simp only [hwide]
    exact Or.inr ⟨_, rfl⟩

/-! ## Signed quantities -/

/-- A text that the signed 32-bit reader takes: an integer, or one with a suffix and whatever
follows that. -/
theorem signed32_ok {n : Int32} (h : signed32 text = .ok n) :
    IsInteger text.toList ∨ ∃ q more, text.toList = q ++ more ∧ IsSuffixed 30 q := by
  unfold signed32 bounded at h
  simp only at h
  rcases hread : integer? text.toList with _ | i
  · simp only [hread] at h
    cases h
  · obtain ⟨t, hsplit, hint⟩ := exists_drop hread
    simp only [hread] at h
    split at h
    · cases h
    · next heq =>
      split at heq
      · cases heq
      · cases heq
        split at h
        · next hdrop =>
          rw [hdrop, List.append_nil] at hsplit
          rw [hsplit]
          exact Or.inl hint
        · next c more hdrop =>
          rw [hdrop] at hsplit
          split at h
          · next shift hshift =>
            split at h
            · next hle =>
              refine Or.inr ⟨t ++ [c], more, ?_, t, c, shift, rfl, hint, hshift, hle⟩
              rw [hsplit, List.append_assoc, List.singleton_append]
            · cases h
          · cases h

theorem signed32_whole (htext : IsQuantity 30 text.toList) :
    (∃ n, signed32 text = .ok n) ∨ ∃ subject, signed32 text = .error (.outOfRange subject) := by
  obtain ⟨n, hread, hrest⟩ := htext.read
  unfold signed32 bounded
  simp only [hread]
  by_cases hrange : (decide (n.value < Int32.minValue.toInt)
      || decide (Int32.maxValue.toInt < n.value)) = true
  · simp only [if_pos hrange]
    exact Or.inr ⟨_, rfl⟩
  · simp only [if_neg hrange]
    rcases hrest with hrest | ⟨c, shift, hrest, hshift, hle⟩
    · simp only [hrest]
      exact Or.inl ⟨_, rfl⟩
    · simp only [hrest, hshift, if_pos hle]
      exact Or.inl ⟨_, rfl⟩

/-- **What stands behind a suffix is not looked at.** -/
theorem signed32_append (hshorter : IsSuffixed 30 shorter.toList)
    (htext : text.toList = shorter.toList ++ more) : signed32 text = signed32 shorter := by
  obtain ⟨t, c, shift, hsplit, hint, hshift, hle⟩ := hshorter
  obtain ⟨n, htaken, hall⟩ := integer?_append hint
  have hread := hall [c] (stops_suffix hshift [])
  have hread' := hall (c :: more) (stops_suffix hshift more)
  rw [hsplit, List.append_assoc, List.singleton_append] at htext
  unfold signed32 bounded
  rw [htext, hsplit]
  simp only [hread, hread']
  by_cases hrange : (decide (n.value < Int32.minValue.toInt)
      || decide (Int32.maxValue.toInt < n.value)) = true
  · simp only [if_pos hrange]
  · simp only [if_neg hrange, htaken, List.drop_left, hshift, if_pos hle]

/-- A text that the signed 64-bit reader takes: an integer and whatever follows it. -/
theorem signed64_ok {n : Int64} (h : signed64 text = .ok n) :
    ∃ q more, text.toList = q ++ more ∧ IsInteger q ∧ Stops digit? more := by
  unfold signed64 bounded at h
  rcases hread : integer? text.toList with _ | i
  · simp only [hread] at h
    cases h
  · obtain ⟨t, rest, hsplit, hint, hstops, -⟩ := exists_of_integer? hread
    exact ⟨t, rest, hsplit, hint, hstops⟩

theorem signed64_whole (htext : IsInteger text.toList) :
    (∃ n, signed64 text = .ok n) ∨ ∃ subject, signed64 text = .error (.outOfRange subject) := by
  obtain ⟨n, -, hall⟩ := integer?_append htext
  have hread := hall [] stops_nil
  rw [List.append_nil] at hread
  unfold signed64 bounded
  simp only [hread]
  split
  · next heq =>
    split at heq <;> cases heq
    exact Or.inr ⟨_, rfl⟩
  · exact Or.inl ⟨_, rfl⟩

/-- **What stands behind the number is not looked at.** -/
theorem signed64_append (hshorter : IsInteger shorter.toList) (hmore : Stops digit? more)
    (htext : text.toList = shorter.toList ++ more) : signed64 text = signed64 shorter := by
  obtain ⟨n, -, hall⟩ := integer?_append hshorter
  have hread := hall [] stops_nil
  rw [List.append_nil] at hread
  unfold signed64 bounded
  rw [htext, hread, hall more hmore]

/-! ## Floating-point numbers -/

theorem binary64_ok {x : Binary64} (h : binary64 text = .ok x) : IsBinary64 text.toList := by
  unfold binary64 at h
  simp only at h
  split at h
  · cases h
  · next taken hread =>
    split at h
    · next htaken =>
      rw [htaken] at hread
      exact exists_of_binary64 hread
    · cases h

theorem binary64_numeral (htext : IsBinary64 text.toList) :
    (∃ x, binary64 text = .ok x) ∨ ∃ subject, binary64 text = .error (.outOfRange subject) := by
  unfold binary64
  rcases binary64_whole htext "stod" with ⟨x, hread⟩ | hread
  · simp only [hread, if_true]
    exact Or.inl ⟨x, rfl⟩
  · simp only [hread]
    exact Or.inr ⟨_, rfl⟩

end Quantity
end PageRegions
