import PageRegions.Proofs.Options.Joined

/-!
# Blanks around tokens

Blanks behind a whole text change no token of it, whatever the text holds and whether it can be read
at all (`next_append_blanks`). Trimming once is enough, also for a text of blanks, of which one stays
(`trim_trim`).
-/

set_option autoImplicit false

namespace PageRegions.Token

open Text (isBlank trim)

variable {s t blanks : List Char} {delimiter : Char}

/-! ## Texts of blanks -/

/-- A text is blank, or it holds something else. -/
theorem blank_or_solid (s : List Char) :
    (∀ c ∈ s, isBlank c = true) ∨ ∃ c ∈ s, isBlank c = false := by
  by_cases hsolid : ∃ c ∈ s, isBlank c = false
  · exact Or.inr hsolid
  · exact Or.inl fun c hc => by simpa using fun h => hsolid ⟨c, hc, h⟩

/-- Of a blank text its last character is left. -/
theorem trim_of_forall_blank (hs : ∀ c ∈ s, isBlank c = true) : trim s = s.getLast?.toList := by
  unfold trim
  rw [List.dropWhile_eq_nil_iff.mpr hs]

theorem trim_trim (s : List Char) : trim (trim s) = trim s := by
  rcases blank_or_solid s with hblank | hsolid
  · rw [trim_of_forall_blank (trim_of_blanks hblank), trim_of_forall_blank hblank]
    cases s.getLast? <;> rfl
  · obtain ⟨-, -, -, -, -, -, htrimmed⟩ := exists_trim hsolid
    exact trim_of_trimmed htrimmed

/-! ## Braces that match -/

theorem Balanced.append (hs : Balanced s) (ht : Balanced t) : Balanced (s ++ t) where
  opened front hfront := by
    rcases List.prefix_or_prefix_of_prefix hfront (List.prefix_append s t) with hs' | ⟨rest, rfl⟩
    · exact hs.opened front hs'
    · have hrest := ht.opened rest ((List.prefix_append_right_inj s).mp hfront)
      rw [List.count_append, List.count_append, hs.closed]
      exact Nat.add_le_add_left hrest _
  closed := by rw [List.count_append, List.count_append, hs.closed, ht.closed]

/-- A text without braces. -/
theorem Balanced.of_notMem (hopen : '\x7b' ∉ s) (hclose : '\x7d' ∉ s) : Balanced s where
  opened front hfront := by
    rw [List.count_eq_zero_of_not_mem fun hmem => hclose (hfront.subset hmem)]
    exact Nat.zero_le _
  closed := by rw [List.count_eq_zero_of_not_mem hopen, List.count_eq_zero_of_not_mem hclose]

theorem Balanced.of_blanks (hblanks : ∀ c ∈ blanks, isBlank c = true) : Balanced blanks :=
  .of_notMem (fun hmem => ne_of_isBlank (hblanks _ hmem) (by decide) rfl)
    fun hmem => ne_of_isBlank (hblanks _ hmem) (by decide) rfl

/-- A text in braces. -/
theorem Balanced.inBraces (hs : Balanced s) : Balanced ('\x7b' :: (s ++ ['\x7d'])) where
  opened front hfront := by
    cases front with
    | nil => exact Nat.le_refl _
    | cons c front =>
      obtain ⟨rfl, hmore⟩ := List.cons_prefix_cons.mp hfront
      rcases List.prefix_concat_iff.mp hmore with rfl | hmore
      · simp [hs.closed]
      · have hopened := hs.opened front hmore
        rw [List.count_cons_of_ne (by decide), List.count_cons_self]
        exact Nat.le_succ_of_le hopened
  closed := by simp [hs.closed]

/-! ## Tokens -/

/-- What does not close, no blanks close. -/
theorem splitAtClose_append_none {depth : Nat} (hblanks : ∀ c ∈ blanks, isBlank c = true)
    (h : splitAtClose depth s = none) : splitAtClose depth (s ++ blanks) = none := by
  induction s generalizing depth with
  | nil =>
    rw [List.nil_append]
    clear h
    induction blanks with
    | nil => rfl
    | cons c blanks ih =>
      obtain ⟨hc, hmore⟩ := List.forall_mem_cons.mp hblanks
      rw [splitAtClose_other (ne_of_isBlank hc (by decide)) (ne_of_isBlank hc (by decide)),
        ih hmore]
      rfl
  | cons c s ih =>
    rw [List.cons_append]
    by_cases hopen : c = '\x7b'
    · subst hopen
      rw [splitAtClose_open, Option.map_eq_none_iff] at h ⊢
      exact ih h
    by_cases hclose : c = '\x7d'
    · subst hclose
      cases depth with
      | zero => cases h
      | succ depth =>
        rw [splitAtClose_close, Option.map_eq_none_iff] at h ⊢
        exact ih h
    · rw [splitAtClose_other hopen hclose, Option.map_eq_none_iff] at h ⊢
      exact ih h

/-- A scan of a text with blanks behind it: they are left at the end, if something is. -/
def Scan.append (scan : Scan) (blanks : List Char) : Scan :=
  ⟨scan.token, scan.rest?.map (· ++ blanks)⟩

/-- **Blanks behind a text** change no token of it. -/
theorem next_append_blanks (hdelimiter : isBlank delimiter = false)
    (hblanks : ∀ c ∈ blanks, isBlank c = true) :
    next delimiter (s ++ blanks) = (next delimiter s).map (·.append blanks) := by
  have hnone : blanks.dropWhile isBlank = [] := List.dropWhile_eq_nil_iff.mpr hblanks
  cases hfront : s.dropWhile isBlank with
  | nil =>
    unfold next
    rw [List.dropWhile_append, hfront, List.isEmpty_nil, if_pos rfl, hnone]
    rfl
  | cons c t =>
    by_cases hopen : c = '\x7b'
    · subst hopen
      unfold next
      rw [dropWhile_append_of_cons hfront, hfront]
      simp only [if_true]
      cases hsplit : splitAtClose 0 t with
      | none =>
        rw [splitAtClose_append_none hblanks hsplit]
        rfl
      | some parts =>
        obtain ⟨inside, behind⟩ := parts
        rw [splitAtClose_append_tail hsplit]
        simp only
        cases hbehind : behind.dropWhile isBlank with
        | nil =>
          rw [List.dropWhile_append, hbehind, List.isEmpty_nil, if_pos rfl, hnone]
          rfl
        | cons d rest =>
          rw [dropWhile_append_of_cons hbehind]
          simp only
          split <;> rfl
    · rcases hnext : next delimiter s with fault | ⟨token, _ | rest⟩
      · unfold next at hnext
        rw [hfront] at hnext
        simp only [if_neg hopen] at hnext
        cases hnext
      · -- The text holds no delimiter, and so blanks behind it belong to the token.
        unfold next at hnext ⊢
        rw [hfront] at hnext
        simp only [if_neg hopen] at hnext
        obtain ⟨htoken, hrest⟩ := Scan.mk.inj (Except.ok.inj hnext)
        have hwhole := behind?_eq_none hrest
        have hother : ∀ d ∈ blanks, decide (d ≠ delimiter) = true := fun d hd =>
          decide_eq_true (ne_of_isBlank (hblanks d hd) hdelimiter)
        have hall : ∀ d ∈ c :: (t ++ blanks), decide (d ≠ delimiter) = true := by
          rw [← List.cons_append]
          exact List.forall_mem_append.mpr ⟨hwhole, hother⟩
        rw [List.takeWhile_eq_self_iff.mpr hwhole] at htoken
        rw [dropWhile_append_of_cons hfront]
        simp only [if_neg hopen]
        unfold behind?
        rw [List.takeWhile_eq_self_iff.mpr hall, List.dropWhile_eq_nil_iff.mpr hall,
          ← List.cons_append,
          trim_append_blanks hblanks ⟨c, List.mem_cons_self, dropWhile_stops hfront⟩, htoken]
        rfl
      · exact next_append_some hnext blanks

end PageRegions.Token
