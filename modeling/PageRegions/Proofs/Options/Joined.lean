import Mathlib.Data.List.TakeWhile
import PageRegions.Proofs.Options.Keyed
import PageRegions.Proofs.Options.Written

/-!
# Option texts one behind the other

Two option texts with a semicolon between them say what the first says and then what the second
says (`ofText_join`). What is compared are two readings of the parts with one of the whole, and each
layer has its own reason why these agree. A scan that ended in front of the end of a text ends there
whatever follows, and one that was ended by the end of the text ends at the semicolon instead, with
the same token (`next_append_some`, `next_append_none`). So the pairs of the whole text are those of
its parts (`readPairs_join`, by induction on the pairs of the first). Blanks at the seam are trimmed
off the value in front of it and off the key behind it. And a setting that both parts name is read
once instead of twice, which is the same because the second reading leaves nothing of the first
(`foldl_step_overwritten`).

A first text that ends in a semicolon is left out, because the two semicolons would be an entry
without a key, and so are texts in braces, which are dropped around a whole text only.
-/

set_option autoImplicit false

namespace PageRegions
namespace Token

open Text (isBlank trim dropBlanksRight)

variable {s t blanks tail token rest : List Char} {delimiter : Char}

/-! ## Blanks around a text -/

theorem ne_of_isBlank {c d : Char} (hc : isBlank c = true) (hd : isBlank d = false) : c ≠ d := by
  rintro rfl
  rw [hc] at hd
  cases hd

/-- A key does not end at a blank. -/
theorem endsKey_of_isBlank {c : Char} (hc : isBlank c = true) : endsKey c = false := by
  have hnone : ∀ d ∈ ['=', '\x7b', '\x7d', ';'], isBlank d = false := by simp [isBlank]
  have hends : ∀ d ∈ ['=', '\x7b', '\x7d', ';'], c ≠ d := fun d hd =>
    ne_of_isBlank hc (hnone d hd)
  simp only [List.mem_cons, List.not_mem_nil, or_false, forall_eq_or_imp, forall_eq] at hends
  simp [endsKey, hends]

theorem dropWhile_stops {p : Char → Bool} {c : Char} (h : s.dropWhile p = c :: rest) :
    p c = false := by
  have hnot := List.head?_dropWhile_not p s
  rwa [h] at hnot

theorem exists_dropWhile_blank (hs : ∃ c ∈ s, isBlank c = false) :
    ∃ c t, s.dropWhile isBlank = c :: t := by
  refine List.exists_cons_of_ne_nil fun hnil => ?_
  obtain ⟨c, hc, hsolid⟩ := hs
  rw [List.dropWhile_eq_nil_iff.mp hnil c hc] at hsolid
  cases hsolid

theorem trim_of_blanks (hs : ∀ c ∈ s, isBlank c = true) : ∀ c ∈ trim s, isBlank c = true := by
  intro c hc
  unfold trim at hc
  rw [List.dropWhile_eq_nil_iff.mpr hs] at hc
  exact hs c (List.mem_of_getLast? (Option.mem_toList.mp hc))

/-- Blanks in front of a text are trimmed off. -/
theorem trim_blanks_append (hblanks : ∀ c ∈ blanks, isBlank c = true) (hs : s ≠ []) :
    trim (blanks ++ s) = trim s := by
  unfold trim
  rw [List.dropWhile_append_of_pos hblanks, List.getLast?_append_of_ne_nil _ hs]

/-- Blanks behind a text are trimmed off, if something else is in front of them. -/
theorem trim_append_blanks (hblanks : ∀ c ∈ blanks, isBlank c = true)
    (hs : ∃ c ∈ s, isBlank c = false) : trim (s ++ blanks) = trim s := by
  obtain ⟨c, t, hdrop⟩ := exists_dropWhile_blank hs
  have happend : (s ++ blanks).dropWhile isBlank = c :: t ++ blanks := by
    rw [List.dropWhile_append, hdrop]
    rfl
  unfold trim
  rw [happend, hdrop]
  simp only [List.cons_append]
  rw [← List.cons_append, dropBlanksRight, List.reverse_append,
    List.dropWhile_append_of_pos fun c hc => hblanks c (List.mem_reverse.mp hc)]
  rfl

/-- What is in front of a text's first character that is not blank, and that character. -/
theorem exists_solid (hs : ∃ c ∈ s, isBlank c = false) :
    ∃ left c t, s = left ++ c :: t ∧ (∀ d ∈ left, isBlank d = true) ∧ isBlank c = false := by
  obtain ⟨c, t, hdrop⟩ := exists_dropWhile_blank hs
  refine ⟨s.takeWhile isBlank, c, t, ?_, fun d hd => List.mem_takeWhile_imp hd,
    dropWhile_stops hdrop⟩
  rw [← hdrop, List.takeWhile_append_dropWhile]

/-- A text that is not blank is what is left of it when it is trimmed, between blanks. -/
theorem exists_trim (hs : ∃ c ∈ s, isBlank c = false) :
    ∃ left right, s = left ++ (trim s ++ right) ∧ (∀ c ∈ left, isBlank c = true)
      ∧ (∀ c ∈ right, isBlank c = true) ∧ trim s ≠ [] ∧ Trimmed (trim s) := by
  obtain ⟨left, c, t, rfl, hleft, hc⟩ := exists_solid hs
  obtain ⟨right, d, u, hreverse, hright, hd⟩ :=
    exists_solid (s := (c :: t).reverse) ⟨c, List.mem_reverse.mpr List.mem_cons_self, hc⟩
  have hsplit : c :: t = (d :: u).reverse ++ right.reverse := by
    rw [← List.reverse_append, ← hreverse, List.reverse_reverse]
  have htrim : trim (left ++ c :: t) = (d :: u).reverse := by
    rw [trim_blanks_append hleft (List.cons_ne_nil c t)]
    unfold trim
    rw [List.dropWhile_cons_of_neg (by rw [hc]; decide)]
    change ((c :: t).reverse.dropWhile isBlank).reverse = _
    rw [hreverse, List.dropWhile_append_of_pos hright,
      List.dropWhile_cons_of_neg (by rw [hd]; decide)]
  have hne : (d :: u).reverse ≠ [] := List.reverse_ne_nil_iff.mpr (List.cons_ne_nil d u)
  rw [htrim]
  refine ⟨left, right.reverse, by rw [hsplit], hleft,
    fun e he => hright e (List.mem_reverse.mp he), hne, fun e he => ?_, fun e he => ?_⟩
  · obtain ⟨f, v, hfront⟩ := List.exists_cons_of_ne_nil hne
    rw [hfront] at hsplit he
    cases he
    rw [← (List.cons.inj hsplit).1]
    exact hc
  · rw [List.getLast?_reverse] at he
    cases he
    exact hd

/-- What blanks stand around is left when they are trimmed off. -/
theorem trim_between {left right : List Char} (hleft : ∀ c ∈ left, isBlank c = true)
    (hright : ∀ c ∈ right, isBlank c = true) (hne : s ≠ []) (hs : Trimmed s) :
    trim (left ++ (s ++ right)) = s := by
  obtain ⟨c, t, rfl⟩ := List.exists_cons_of_ne_nil hne
  rw [trim_blanks_append hleft (List.append_ne_nil_of_left_ne_nil hne right),
    trim_append_blanks hright ⟨c, List.mem_cons_self, hs.head c rfl⟩, trim_of_trimmed hs]

/-- Blanks at either end of a joined text are trimmed off, those at the seam are not. -/
theorem trim_append (hs : ∃ c ∈ s, isBlank c = false) (hne : t ≠ [])
    (hlast : ∀ c, t.getLast? = some c → isBlank c = false)
    (hblanks : ∀ c ∈ blanks, isBlank c = true) :
    ∃ right, trim (s ++ (t ++ blanks)) = trim s ++ (right ++ t)
      ∧ ∀ c ∈ right, isBlank c = true := by
  obtain ⟨left, right, hsplit, hleft, hright, hne', htrimmed⟩ := exists_trim hs
  refine ⟨right, ?_, hright⟩
  have hwhole : Trimmed (trim s ++ (right ++ t)) := by
    refine ⟨fun c hc => htrimmed.head c ?_, fun c hc => hlast c ?_⟩
    · rwa [List.head?_append_of_ne_nil _ hne'] at hc
    · rwa [← List.append_assoc, List.getLast?_append_of_ne_nil _ hne] at hc
  have hmiddle := trim_between hleft hblanks (List.append_ne_nil_of_left_ne_nil hne' _) hwhole
  rw [← hmiddle]
  conv_lhs => rw [hsplit]
  simp only [List.append_assoc]

/-! ## Scans of a text with something behind it -/

theorem splitAtClose_append_tail {depth : Nat} {inside : List Char}
    (h : splitAtClose depth s = some (inside, rest)) (tail : List Char) :
    splitAtClose depth (s ++ tail) = some (inside, rest ++ tail) := by
  induction s generalizing depth inside with
  | nil => cases h
  | cons c s ih =>
    rw [List.cons_append]
    by_cases hopen : c = '\x7b'
    · subst hopen
      rw [splitAtClose_open] at h ⊢
      obtain ⟨⟨front, back⟩, hfound, heq⟩ := Option.map_eq_some_iff.mp h
      cases heq
      rw [ih hfound]
      rfl
    by_cases hclose : c = '\x7d'
    · subst hclose
      cases depth with
      | zero =>
        cases h
        rfl
      | succ depth =>
        rw [splitAtClose_close] at h ⊢
        obtain ⟨⟨front, back⟩, hfound, heq⟩ := Option.map_eq_some_iff.mp h
        cases heq
        rw [ih hfound]
        rfl
    · rw [splitAtClose_other hopen hclose] at h ⊢
      obtain ⟨⟨front, back⟩, hfound, heq⟩ := Option.map_eq_some_iff.mp h
      cases heq
      rw [ih hfound]
      rfl

theorem dropWhile_append_of_cons {p : Char → Bool} {c : Char} (h : s.dropWhile p = c :: rest)
    (tail : List Char) : (s ++ tail).dropWhile p = c :: (rest ++ tail) := by
  rw [List.dropWhile_append, h]
  rfl

/-- The part of a text in front of the place where a scan stopped does not hang on what follows. -/
theorem takeWhile_append_of_cons {p : Char → Bool} {c : Char} (h : s.dropWhile p = c :: rest)
    (tail : List Char) : (s ++ tail).takeWhile p = s.takeWhile p := by
  have hsplit : s = s.takeWhile p ++ c :: rest := by
    rw [← h, List.takeWhile_append_dropWhile]
  have hstop : p c = false := dropWhile_stops h
  conv_lhs => rw [hsplit, List.append_assoc,
    List.takeWhile_append_of_pos fun d hd => List.mem_takeWhile_imp hd, List.cons_append,
    List.takeWhile_cons_of_neg (by rw [hstop]; decide), List.append_nil]

theorem behind?_eq_some (h : behind? delimiter s = some rest) :
    s.dropWhile (· ≠ delimiter) = delimiter :: rest := by
  unfold behind? at h
  split at h
  · cases h
  · next c t hdrop =>
    cases h
    have hstop : c = delimiter := by simpa using dropWhile_stops hdrop
    rw [hdrop, hstop]

theorem behind?_eq_none (h : behind? delimiter s = none) :
    ∀ c ∈ s, decide (c ≠ delimiter) = true := by
  unfold behind? at h
  split at h
  · next hdrop => exact List.dropWhile_eq_nil_iff.mp hdrop
  · cases h

/-- **A token that a delimiter ended** ends there whatever follows. -/
theorem next_append_some (h : next delimiter s = .ok ⟨token, some rest⟩) (tail : List Char) :
    next delimiter (s ++ tail) = .ok ⟨token, some (rest ++ tail)⟩ := by
  unfold next at h ⊢
  split at h
  · cases h
  · next c t hfront =>
    rw [dropWhile_append_of_cons hfront]
    simp only
    split at h
    · next hbrace =>
      rw [if_pos hbrace]
      split at h
      · cases h
      · next inside behind hsplit =>
        rw [splitAtClose_append_tail hsplit]
        simp only
        split at h
        · cases h
        · next d more hbehind =>
          rw [dropWhile_append_of_cons hbehind]
          simp only
          split at h
          · next hdelimiter =>
            cases h
            rw [if_pos hdelimiter]
          · cases h
    · next hbrace =>
      rw [if_neg hbrace]
      obtain ⟨htoken, hrest⟩ := Scan.mk.inj (Except.ok.inj h)
      have hdrop := behind?_eq_some hrest
      rw [← List.cons_append, takeWhile_append_of_cons hdrop, htoken, behind?,
        dropWhile_append_of_cons hdrop]

/-- **A token that the end of the text ended** ends at a delimiter that follows, or that follows
behind blanks. -/
theorem next_append_none (hdelimiter : isBlank delimiter = false) (hbrace : delimiter ≠ '\x7b')
    (hblanks : ∀ c ∈ blanks, isBlank c = true) (h : next delimiter s = .ok ⟨token, none⟩)
    (rest : List Char) :
    next delimiter (s ++ (blanks ++ delimiter :: rest)) = .ok ⟨token, some rest⟩ := by
  have hstop : (delimiter :: rest).dropWhile isBlank = delimiter :: rest :=
    List.dropWhile_cons_of_neg (by rw [hdelimiter]; decide)
  have hother : ∀ c ∈ blanks, decide (c ≠ delimiter) = true := fun c hc =>
    decide_eq_true (ne_of_isBlank (hblanks c hc) hdelimiter)
  unfold next at h ⊢
  split at h
  · next hblank =>
    -- The text is blank, and so the token is empty.
    cases h
    rw [List.dropWhile_append_of_pos (List.dropWhile_eq_nil_iff.mp hblank),
      List.dropWhile_append_of_pos hblanks, hstop]
    simp only [hbrace, if_false]
    simp [behind?, trim]
  · next c t hfront =>
    rw [dropWhile_append_of_cons hfront]
    simp only
    split at h
    · next hopen =>
      rw [if_pos hopen]
      split at h
      · cases h
      · next inside behind hsplit =>
        rw [splitAtClose_append_tail hsplit]
        simp only
        split at h
        · next hbehind =>
          cases h
          rw [List.dropWhile_append_of_pos (List.dropWhile_eq_nil_iff.mp hbehind),
            List.dropWhile_append_of_pos hblanks, hstop]
          exact if_pos rfl
        · split at h <;> cases h
    · next hopen =>
      rw [if_neg hopen]
      obtain ⟨htoken, hrest⟩ := Scan.mk.inj (Except.ok.inj h)
      have hwhole := behind?_eq_none hrest
      have hsolid : isBlank c = false := dropWhile_stops hfront
      rw [List.takeWhile_eq_self_iff.mpr hwhole] at htoken
      unfold behind?
      rw [← List.cons_append, List.takeWhile_append_of_pos hwhole,
        List.takeWhile_append_of_pos hother, List.dropWhile_append_of_pos hwhole,
        List.dropWhile_append_of_pos hother, List.takeWhile_cons_of_neg (by simp),
        List.dropWhile_cons_of_neg (by simp), List.append_nil,
        trim_append_blanks hblanks ⟨c, List.mem_cons_self, hsolid⟩, htoken]

/-- **What a token is taken from**: blanks, the braces behind some blanks, or the text behind them that
does not begin with a brace. -/
theorem next_ok {scan : Scan} (h : next delimiter s = .ok scan) :
    scan = ⟨[], none⟩
      ∨ (∃ gap inside behind, s = gap ++ '\x7b' :: (inside ++ '\x7d' :: behind)
        ∧ (∀ c ∈ gap, isBlank c = true) ∧ scan.token = trim inside
        ∧ ∀ rest, scan.rest? = some rest → delimiter :: rest <:+ behind)
      ∨ ∃ gap c t, s = gap ++ c :: t ∧ isBlank c = false
        ∧ scan = ⟨trim ((c :: t).takeWhile (· ≠ delimiter)), behind? delimiter (c :: t)⟩ := by
  have hgap : ∀ c ∈ s.takeWhile isBlank, isBlank c = true := fun c hc => List.mem_takeWhile_imp hc
  unfold next at h
  split at h
  · cases h
    exact Or.inl rfl
  · next c t hfront =>
    have hs : s = s.takeWhile isBlank ++ c :: t := by
      rw [← hfront, List.takeWhile_append_dropWhile]
    split at h
    · next hopen =>
      subst hopen
      split at h
      · cases h
      · next inside behind hsplit =>
        rw [splitAtClose_eq_append hsplit] at hs
        refine Or.inr (Or.inl ⟨_, inside, behind, hs, hgap, ?_⟩)
        split at h
        · cases h
          exact ⟨rfl, fun rest hrest => by cases hrest⟩
        · next d rest hbehind =>
          split at h
          · next hd =>
            subst hd
            cases h
            refine ⟨rfl, ?_⟩
            rintro _ ⟨⟩
            exact hbehind ▸ List.dropWhile_suffix isBlank
          · cases h
    · cases h
      exact Or.inr (Or.inr ⟨_, c, t, hs, dropWhile_stops hfront, rfl⟩)

/-- A token was trimmed. -/
theorem next_token {scan : Scan} (h : next delimiter s = .ok scan) : ∃ t, scan.token = trim t := by
  rcases next_ok h with rfl | ⟨-, inside, -, -, -, htoken, -⟩ | ⟨-, c, t, -, -, rfl⟩
  · exact ⟨[], rfl⟩
  · exact ⟨inside, htoken⟩
  · exact ⟨_, rfl⟩

/-- What is left behind a token is the end of the text, behind a delimiter. -/
theorem next_suffix (h : next delimiter s = .ok ⟨token, some rest⟩) : delimiter :: rest <:+ s := by
  rcases next_ok h with hnone | ⟨gap, inside, behind, rfl, -, -, hrest⟩ | ⟨gap, c, t, rfl, -, heq⟩
  · cases hnone
  · have hbehind : behind <:+ gap ++ '\x7b' :: (inside ++ '\x7d' :: behind) :=
      ⟨gap ++ '\x7b' :: (inside ++ ['\x7d']), by simp⟩
    exact (hrest rest rfl).trans hbehind
  · obtain ⟨-, hrest⟩ := Scan.mk.inj heq
    exact (behind?_eq_some hrest.symm ▸ List.dropWhile_suffix _).trans (List.suffix_append gap _)

/-! ## Pairs of a text with something behind it -/

theorem entry_rest_length {body : List Char} (key : List Char)
    (h : next delimiter body = .ok ⟨token, some rest⟩) :
    rest.length < (key ++ '=' :: body).length := by
  have hbody := next_rest_length h
  simp only [List.length_append, List.length_cons]
  omega

/-- Whatever is read of a text begins with an entry. -/
theorem exists_entry (hs : s ≠ []) (hread : (readPairs s).fault? = none) :
    ∃ key body token rest?, s = key ++ '=' :: body ∧ (∀ c ∈ key, endsKey c = false)
      ∧ trim key ≠ [] ∧ next ';' body = .ok ⟨token, rest?⟩
      ∧ ∀ rest, rest? = some rest → (readPairs rest).fault? = none := by
  obtain ⟨c, t, rfl⟩ := List.exists_cons_of_ne_nil hs
  have hread' := hread
  rw [readPairs] at hread'
  split at hread'
  · cases hread'
  · next d body hdrop =>
    split at hread'
    · cases hread'
    · next hequals =>
      obtain rfl : d = '=' := Decidable.not_not.mp hequals
      have hplain : ∀ e ∈ (c :: t).takeWhile (fun e => !endsKey e), endsKey e = false := by
        intro e he
        have hmem := List.mem_takeWhile_imp he
        simpa using hmem
      have hsplit : c :: t = (c :: t).takeWhile (fun e => !endsKey e) ++ '=' :: body := by
        rw [← hdrop, List.takeWhile_append_dropWhile]
      by_cases hkey : trim ((c :: t).takeWhile fun e => !endsKey e) = []
      · simp only [hkey, if_true] at hread'
        cases hread'
      · rw [hsplit, readPairs_entry hplain hkey] at hread
        rcases hnext : next ';' body with fault | ⟨token, rest?⟩
        · rw [hnext] at hread
          cases hread
        · refine ⟨_, body, token, rest?, hsplit, hplain, hkey, hnext, ?_⟩
          rintro rest rfl
          rw [hnext] at hread
          exact hread

/-- An entry makes a text more than blanks. -/
theorem exists_solid_of_readPairs (hs : s ≠ []) (hread : (readPairs s).fault? = none) :
    ∃ c ∈ s, isBlank c = false := by
  obtain ⟨key, body, token, rest?, rfl, -⟩ := exists_entry hs hread
  exact ⟨'=', List.mem_append_right _ List.mem_cons_self, rfl⟩

/-- Blanks in front of a key are no part of it. -/
theorem readPairs_blanks_append (hblanks : ∀ c ∈ blanks, isBlank c = true) (hs : s ≠ [])
    (hread : (readPairs s).fault? = none) : readPairs (blanks ++ s) = readPairs s := by
  obtain ⟨key, body, token, rest?, rfl, hplain, hkey, -⟩ := exists_entry hs hread
  have hne : key ≠ [] := fun hnil => hkey (by rw [hnil]; rfl)
  have hplain' : ∀ c ∈ blanks ++ key, endsKey c = false := fun c hc =>
    (List.mem_append.mp hc).elim (fun hc => endsKey_of_isBlank (hblanks c hc)) (hplain c)
  have htrim : trim (blanks ++ key) = trim key := trim_blanks_append hblanks hne
  rw [← List.append_assoc, readPairs_entry hplain' (by rw [htrim]; exact hkey),
    readPairs_entry hplain hkey, htrim]

/-- **The pairs of a text and then those of another**, if a semicolon stands between the two. -/
theorem readPairs_join (hblanks : ∀ c ∈ blanks, isBlank c = true) (hs : s ≠ [])
    (hlast : s.getLast? ≠ some ';') (hread : (readPairs s).fault? = none) (rest : List Char) :
    readPairs (s ++ (blanks ++ ';' :: rest))
      = ⟨(readPairs s).pairs ++ (readPairs rest).pairs, (readPairs rest).fault?⟩ := by
  -- The induction is on the entries of the first text.
  induction hlength : s.length using Nat.strong_induction_on generalizing s with
  | _ length ih =>
    obtain ⟨key, body, token, rest?, rfl, hplain, hkey, hnext, hmore⟩ := exists_entry hs hread
    rw [List.append_assoc, List.cons_append, readPairs_entry hplain hkey,
      readPairs_entry hplain hkey]
    cases rest? with
    | none =>
      rw [next_append_none (by decide) (by decide) hblanks hnext, hnext]
      rfl
    | some more =>
      rw [next_append_some hnext, hnext]
      obtain ⟨front, hfront⟩ := next_suffix hnext
      have hne : more ≠ [] := by
        rintro rfl
        refine hlast ?_
        rw [← hfront, List.getLast?_append_of_ne_nil _ (List.cons_ne_nil _ _), ← List.cons_append,
          List.getLast?_concat]
      have hlast' : more.getLast? ≠ some ';' := by
        intro hsemicolon
        refine hlast ?_
        rw [← hfront, List.getLast?_append_of_ne_nil _ (List.cons_ne_nil _ _), ← List.cons_append,
          List.getLast?_append_of_ne_nil _ (List.cons_ne_nil _ _),
          List.getLast?_cons_of_ne_nil hne, hsemicolon]
      have hshorter : more.length < length := hlength ▸ entry_rest_length key hnext
      simp only
      rw [ih more.length hshorter hne hlast' (hmore more rfl) rfl]
      rfl

/-- Two option texts that a semicolon may stand between. -/
structure Joins (first second : List Char) : Prop where
  nonempty : trim first ≠ []
  unbraced : (trim first).head? ≠ some '\x7b'
  unended : (trim first).getLast? ≠ some ';'
  unbraced' : (trim second).head? ≠ some '\x7b'

instance (first second : List Char) : Decidable (Joins first second) :=
  decidable_of_iff (trim first ≠ [] ∧ (trim first).head? ≠ some '\x7b'
      ∧ (trim first).getLast? ≠ some ';' ∧ (trim second).head? ≠ some '\x7b')
    ⟨fun h => ⟨h.1, h.2.1, h.2.2.1, h.2.2.2⟩,
      fun h => ⟨h.nonempty, h.unbraced, h.unended, h.unbraced'⟩⟩

variable {first second : List Char}

/-- A text that is read holds more than blanks, unless it is empty. -/
theorem exists_solid_of_pairsOf (hunbraced : (trim s).head? ≠ some '\x7b') (hs : s ≠ [])
    (hread : (pairsOf s).fault? = none) : ∃ c ∈ s, isBlank c = false := by
  by_contra hnone
  have hblank : ∀ c ∈ s, isBlank c = true := fun c hc => by simpa using fun h => hnone ⟨c, hc, h⟩
  have hne : trim s ≠ [] := by
    unfold trim
    rw [List.dropWhile_eq_nil_iff.mpr hblank, List.getLast?_eq_some_getLast hs]
    exact List.cons_ne_nil _ _
  unfold pairsOf at hread
  rw [unwrap_of_head hunbraced] at hread
  obtain ⟨c, hc, hsolid⟩ := exists_solid_of_readPairs hne hread
  rw [trim_of_blanks hblank c hc] at hsolid
  cases hsolid

/-- What is read of a text behind a semicolon begins behind it, and ends in front of blanks. The text
in front is not in braces, and so the whole text is not, either. -/
theorem pairsOf_append {body : List Char} (hunbraced : (trim first).head? ≠ some '\x7b')
    (hunended : (trim first).getLast? ≠ some ';') (hsolid : ∃ c ∈ first, isBlank c = false)
    (hread : (pairsOf first).fault? = none)
    (hlast : ∀ c, (';' :: body).getLast? = some c → isBlank c = false)
    (hblanks : ∀ c ∈ blanks, isBlank c = true) :
    pairsOf (first ++ ';' :: (body ++ blanks))
      = ⟨(pairsOf first).pairs ++ (readPairs body).pairs, (readPairs body).fault?⟩ := by
  obtain ⟨-, -, -, -, -, hne, -⟩ := exists_trim hsolid
  obtain ⟨right, htrim, hright⟩ := trim_append hsolid (List.cons_ne_nil ';' body) hlast hblanks
  rw [List.cons_append] at htrim
  unfold pairsOf at hread ⊢
  rw [unwrap_of_head hunbraced] at hread ⊢
  rw [htrim, unwrap_of_head]
  · exact readPairs_join hright hne hunended hread body
  · rwa [List.head?_append_of_ne_nil _ hne]

/-- **The pairs of two texts** are those of the first and then those of the second. -/
theorem pairsOf_join (hjoins : Joins first second) (hfirst : (pairsOf first).fault? = none)
    (hsecond : (pairsOf second).fault? = none) :
    pairsOf (first ++ ';' :: second)
      = ⟨(pairsOf first).pairs ++ (pairsOf second).pairs, none⟩ := by
  have hne : first ≠ [] := fun hnil => hjoins.nonempty (by rw [hnil]; rfl)
  have hsolid := exists_solid_of_pairsOf hjoins.unbraced hne hfirst
  by_cases hnil : second = []
  · subst hnil
    have hsemicolon : ∀ c, [';'].getLast? = some c → isBlank c = false := by
      rintro c ⟨⟩
      rfl
    have hwhole := pairsOf_append hjoins.unbraced hjoins.unended hsolid hfirst hsemicolon
      (List.forall_mem_nil fun c => isBlank c = true)
    rw [List.append_nil, readPairs] at hwhole
    unfold pairsOf at hwhole ⊢
    rw [hwhole, unwrap_of_head (s := trim []) (by decide), show trim [] = [] from rfl, readPairs]
  · have hsolid' := exists_solid_of_pairsOf hjoins.unbraced' hnil hsecond
    obtain ⟨left, right, hsplit, hleft, hright, hne', htrimmed⟩ := exists_trim hsolid'
    have hlast : ∀ c, (';' :: (left ++ trim second)).getLast? = some c → isBlank c = false := by
      intro c hc
      refine htrimmed.last c ?_
      rwa [← List.cons_append, List.getLast?_append_of_ne_nil _ hne'] at hc
    have hwhole := pairsOf_append hjoins.unbraced hjoins.unended hsolid hfirst hlast hright
    have hpairs : pairsOf second = readPairs (trim second) := by
      unfold pairsOf
      rw [unwrap_of_head hjoins.unbraced']
    rw [hpairs] at hsecond
    rw [List.append_assoc, ← hsplit, readPairs_blanks_append hleft hne' hsecond, hsecond] at hwhole
    rw [hwhole, hpairs]

end Token

/-! ## Tables one behind the other -/

namespace Keyed

variable {σ : Type} (K : Keyed σ) {base r r' : σ} {table other : List (String × String)}

/-- Whether a setting that is replaced leaves nothing of what it was. -/
def Overwrites (K : Keyed σ) : Prop :=
  ∀ {key text : String} {v : SettingValue}, K.read key text = .ok v →
    ∀ o w, K.put (K.put o key w) key v = K.put o key v

variable {K}

/-- An entry in front of a table that names its key does nothing. -/
theorem foldl_step_overwritten (hover : K.Overwrites) (hread : K.Readable table)
    {e : String × String} (hkey : e.1 ∈ table.map Prod.fst) (base : σ) :
    table.foldl K.step (K.step base e) = table.foldl K.step base := by
  induction table generalizing base with
  | nil => cases hkey
  | cons x more ih =>
    have hmore : K.Readable more := fun y hy => hread y (List.mem_cons_of_mem _ hy)
    rw [List.foldl_cons, List.foldl_cons]
    by_cases hsame : e.1 = x.1
    · obtain ⟨v, hv⟩ := hread x List.mem_cons_self
      have habsorbed : K.step (K.step base e) x = K.step base x := by
        unfold step
        rw [hv]
        cases K.read e.1 e.2 with
        | error => rfl
        | ok w =>
          rw [hsame]
          exact hover hv base w
      rw [habsorbed]
    · rw [K.step_comm hsame]
      exact ih hmore ((List.mem_cons.mp hkey).resolve_left hsame) _

/-- Of a table in front of another only the keys that the other does not name matter. -/
theorem foldl_step_foldl (hover : K.Overwrites) (hread : K.Readable table)
    (hother : K.Readable other) (base : σ) :
    other.foldl K.step (table.foldl K.step base)
      = (table.filter (fun e => e.1 ∉ other.map Prod.fst) ++ other).foldl K.step base := by
  induction table generalizing base with
  | nil => rfl
  | cons e more ih =>
    have hmore : K.Readable more := fun x hx => hread x (List.mem_cons_of_mem _ hx)
    rw [List.foldl_cons, ih hmore, List.filter_cons]
    split
    · rfl
    · next hnamed =>
      rw [decide_eq_true_eq, not_not] at hnamed
      refine foldl_step_overwritten hover (fun x hx => ?_) ?_ base
      · rcases List.mem_append.mp hx with hx | hx
        · exact hmore x (List.mem_filter.mp hx).1
        · exact hother x hx
      · rw [List.map_append]
        exact List.mem_append_right _ hnamed

end Keyed

namespace Token

/-- The table of pairs and then others is the table of the others, and what the first table says of
keys that these do not name. -/
theorem tableOf_append (pairs more : List (String × String)) :
    (tableOf (pairs ++ more)).Perm
      ((tableOf pairs).filter (fun e => e.1 ∉ (tableOf more).map Prod.fst) ++ tableOf more) := by
  have hwhole := binds_tableOf (pairs ++ more)
  have hpairs := binds_tableOf pairs
  have hmore := binds_tableOf more
  have hnamed : ∀ key, key ∈ (tableOf more).map Prod.fst
      ↔ ∃ value, more.reverse.lookup key = some value := by
    intro key
    rw [List.mem_map]
    constructor
    · rintro ⟨⟨_, value⟩, hmem, rfl⟩
      exact ⟨value, (hmore.last _ _).mp hmem⟩
    · rintro ⟨value, hvalue⟩
      exact ⟨(key, value), (hmore.last _ _).mpr hvalue, rfl⟩
  have hnodup : ((tableOf pairs).filter (fun e => e.1 ∉ (tableOf more).map Prod.fst)
      ++ tableOf more).Nodup := by
    refine (hpairs.nodup.of_map.filter _).append hmore.nodup.of_map fun e he he' => ?_
    have hother := (List.mem_filter.mp he).2
    rw [decide_eq_true_eq] at hother
    exact hother (List.mem_map_of_mem he')
  refine (List.perm_ext_iff_of_nodup hwhole.nodup.of_map hnodup).mpr fun e => ?_
  obtain ⟨key, value⟩ := e
  rw [hwhole.last, List.reverse_append, List.lookup_append, List.mem_append, List.mem_filter,
    decide_eq_true_eq, hpairs.last, hmore.last, hnamed]
  cases more.reverse.lookup key with
  | none => simp
  | some other => simp

end Token

namespace Keyed

variable {σ : Type} {K : Keyed σ} {base r r' : σ} {pairs more : List (String × String)}

/-- **A table of pairs and then others** is read as one table after the other. -/
theorem ofTable_append (hover : K.Overwrites) (hr : K.ofTable base (Token.tableOf pairs) = .ok r)
    (hr' : K.ofTable r (Token.tableOf more) = .ok r') :
    K.ofTable base (Token.tableOf (pairs ++ more)) = .ok r' := by
  have hread := K.readable_of_ok hr
  have hread' := K.readable_of_ok hr'
  rw [K.ofTable_of_readable hread] at hr
  rw [K.ofTable_of_readable hread'] at hr'
  have hperm := Token.tableOf_append pairs more
  have hparts : K.Readable ((Token.tableOf pairs).filter
      (fun e => e.1 ∉ (Token.tableOf more).map Prod.fst) ++ Token.tableOf more) := by
    intro e he
    rcases List.mem_append.mp he with he | he
    · exact hread e (List.mem_filter.mp he).1
    · exact hread' e he
  rw [K.ofTable_of_readable (hparts.perm hperm.symm),
    K.foldl_step_perm hperm (Token.binds_tableOf _).nodup, ← foldl_step_foldl hover hread hread']
  rw [Except.ok.inj hr]
  exact hr'

end Keyed

/-! ## Option texts -/

namespace RegionOptions

theorem keyed_overwrites (fresh : RegionOptions) : (keyed fresh).Overwrites := by
  intro key text v h o w
  change read fresh key text = .ok v at h
  change (o.replace key w).replace key v = o.replace key v
  unfold read kindOf? at h
  split at h
  · cases h
  · next kind hkind =>
    split at hkind <;> cases hkind
    case h_1.refl | h_7.refl =>
      cases h
      cases w <;> rfl
    all_goals
      obtain ⟨a, -, rfl⟩ := exists_of_map_ok h
      cases w <;> rfl

theorem ofText_ok {base r : RegionOptions} {text : List Char} :
    base.ofText text = .ok r ↔ (Token.pairsOf text).fault? = none
      ∧ base.ofTable (Token.tableOf (Token.pairsOf text).pairs) = .ok r := by
  unfold ofText
  rcases Token.pairsOf text with ⟨pairs, _ | fault⟩ <;> simp

end RegionOptions

namespace MemoryOptions

theorem replace_logLevel (o : MemoryOptions) (level : LogLevel) :
    o.replace "info_log_level" (.integer level.rank) = { o with logLevel := level } := by
  cases level <;> rfl

theorem keyed_overwrites (lists : List Char → Except Fault (List RegionOptions))
    (fresh : RegionOptions) : (keyed lists fresh).Overwrites := by
  intro key text v h o w
  change read lists fresh key text = .ok v at h
  change (o.replace key w).replace key v = o.replace key v
  unfold read kindOf? at h
  split at h
  · cases h
  · next hkind =>
    obtain ⟨regions, -, rfl⟩ := exists_of_map_ok h
    split at hkind <;> cases hkind
    cases w <;> rfl
  · next kind hother hkind =>
    split at hkind <;> cases hkind
    case h_2.refl => exact absurd rfl hother
    case h_3.refl | h_7.refl | h_10.refl | h_11.refl =>
      cases h
      cases w <;> rfl
    case h_12.refl =>
      obtain ⟨level, -, rfl⟩ := exists_of_map_ok h
      rw [replace_logLevel, replace_logLevel]
      cases w with
      | integer n =>
        have hput : o.replace "info_log_level" (.integer n)
            = ((LogLevel.ofRank? n.toNat).map fun other => { o with logLevel := other }).getD o :=
          rfl
        rw [hput]
        -- A number that is no level leaves the record as it was.
        cases LogLevel.ofRank? n.toNat <;> rfl
      | _ => rfl
    all_goals
      obtain ⟨a, -, rfl⟩ := exists_of_map_ok h
      cases w <;> rfl

theorem ofText_ok {fresh : RegionOptions} {base r : MemoryOptions} {text : List Char} :
    base.ofText fresh text = .ok r ↔ (Token.pairsOf text).fault? = none
      ∧ base.ofTable fresh (Token.tableOf (Token.pairsOf text).pairs) = .ok r := by
  unfold ofText
  rcases Token.pairsOf text with ⟨pairs, _ | fault⟩ <;> simp

end MemoryOptions

/-- **Option texts one behind the other** are applied one after the other. -/
theorem ofText_join {first second : List Char} (hjoins : Token.Joins first second) :
    (∀ base r r' : RegionOptions, base.ofText first = .ok r → r.ofText second = .ok r' →
      base.ofText (first ++ ';' :: second) = .ok r')
    ∧ ∀ (fresh : RegionOptions) (base r r' : MemoryOptions), base.ofText fresh first = .ok r →
      r.ofText fresh second = .ok r' → base.ofText fresh (first ++ ';' :: second) = .ok r' := by
  constructor
  · intro base r r' hr hr'
    obtain ⟨hread, htable⟩ := RegionOptions.ofText_ok.mp hr
    obtain ⟨hread', htable'⟩ := RegionOptions.ofText_ok.mp hr'
    rw [RegionOptions.ofTable_eq base] at htable htable'
    rw [RegionOptions.ofText_ok, Token.pairsOf_join hjoins hread hread',
      RegionOptions.ofTable_eq base]
    exact ⟨rfl, Keyed.ofTable_append (RegionOptions.keyed_overwrites base) htable htable'⟩
  · intro fresh base r r' hr hr'
    obtain ⟨hread, htable⟩ := MemoryOptions.ofText_ok.mp hr
    obtain ⟨hread', htable'⟩ := MemoryOptions.ofText_ok.mp hr'
    rw [MemoryOptions.ofTable_eq] at htable htable'
    rw [MemoryOptions.ofText_ok, Token.pairsOf_join hjoins hread hread', MemoryOptions.ofTable_eq]
    exact ⟨rfl, Keyed.ofTable_append (MemoryOptions.keyed_overwrites _ fresh) htable htable'⟩

/-- A maximum size and a page size that are said twice, with blanks at one of the seams. -/
theorem ofText_join_said_twice :
    (RegionOptions.usual ⟨0, 0⟩ "").ofText
        ("name=a; max_size = 1m ".toList ++ ';' :: " max_size=\x7b2m\x7d ;".toList)
      = .ok { RegionOptions.usual ⟨0, 0⟩ "a" with maxSize := 2097152 }
    ∧ MemoryOptions.usual.ofText (RegionOptions.usual ⟨0, 0⟩ "")
        ("page_size=8k;work_dir=\x7ba;b\x7d".toList ++ ';' :: "page_size=16k".toList)
      = .ok { MemoryOptions.usual with pageSize := 16384, workDir := "a;b" } := by
  constructor
  · have hjoins : Token.Joins "name=a; max_size = 1m ".toList " max_size=\x7b2m\x7d ;".toList := by
      decide +kernel
    have hpairs : Token.pairsOf "name=a; max_size = 1m ".toList
        = ⟨[("name", "a"), ("max_size", "1m")], none⟩ := by decide +kernel
    have hpairs' : Token.pairsOf " max_size=\x7b2m\x7d ;".toList
        = ⟨[("max_size", "2m")], none⟩ := by decide +kernel
    refine (ofText_join hjoins).1 _ { RegionOptions.usual ⟨0, 0⟩ "a" with maxSize := 1048576 } _
      (RegionOptions.ofText_ok.mpr ?_) (RegionOptions.ofText_ok.mpr ?_)
    · rw [hpairs]
      exact ⟨rfl, rfl⟩
    · rw [hpairs']
      exact ⟨rfl, rfl⟩
  · have hjoins : Token.Joins "page_size=8k;work_dir=\x7ba;b\x7d".toList
        "page_size=16k".toList := by decide +kernel
    have hpairs : Token.pairsOf "page_size=8k;work_dir=\x7ba;b\x7d".toList
        = ⟨[("page_size", "8k"), ("work_dir", "a;b")], none⟩ := by decide +kernel
    have hpairs' : Token.pairsOf "page_size=16k".toList = ⟨[("page_size", "16k")], none⟩ := by
      decide +kernel
    refine (ofText_join hjoins).2 _ _
      { MemoryOptions.usual with pageSize := 8192, workDir := "a;b" } _
      (MemoryOptions.ofText_ok.mpr ?_) (MemoryOptions.ofText_ok.mpr ?_)
    · rw [hpairs]
      exact ⟨rfl, rfl⟩
    · rw [hpairs']
      exact ⟨rfl, rfl⟩

end PageRegions
