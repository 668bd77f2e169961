import Mathlib.Logic.Relation
import PageRegions.Proofs.Options.Stripped

/-!
# Blanks that mean nothing

Blanks around keys and values, and inside the braces of a value, are not part of what an option text
says. What this comes to is said of two texts: one has a blank more than the other (`Spaced`), at one
of the places that an option text has for blanks, and any number of such steps makes two texts that
are the same but for their blanks (`Respaced`).

Reading without blanks cannot tell them apart (`Respaced.read`): a blank changes one entry at most,
and nothing that is read of it (`EntrySpaced.first`), and what stands in front of the entry is read
as before (`Opening.read`).
-/

set_option autoImplicit false

namespace PageRegions.Token

open Text (isBlank trim)

/-! ## Places for blanks -/

/-- Whether a text does not begin with a brace, blanks aside. -/
def Unbraced (s : List Char) : Prop := (s.dropWhile isBlank).head? ≠ some '\x7b'

instance (s : List Char) : Decidable (Unbraced s) :=
  inferInstanceAs (Decidable ((s.dropWhile isBlank).head? ≠ some '\x7b'))

/-- Whether a text begins and ends with a brace, blanks aside. -/
structure InBraces (s : List Char) : Prop where
  opened : (s.filter (!isBlank ·)).head? = some '\x7b'
  closed : (s.filter (!isBlank ·)).getLast? = some '\x7d'

instance (s : List Char) : Decidable (InBraces s) :=
  decidable_of_iff ((s.filter (!isBlank ·)).head? = some '\x7b'
      ∧ (s.filter (!isBlank ·)).getLast? = some '\x7d')
    ⟨fun h => ⟨h.1, h.2⟩, fun h => ⟨h.opened, h.closed⟩⟩

/-- What can stand in front of a semicolon that ends an entry. It need not be one that can be
read. -/
inductive Piece : List Char → Prop
  | word {w : List Char} (plain : ∀ c ∈ w, endsKey c = false) : Piece w
  | bare {key value : List Char} (plain : ∀ c ∈ key, endsKey c = false)
      (unbraced : Unbraced value) (whole : ';' ∉ value) : Piece (key ++ '=' :: value)
  | braced {key gap inside behind : List Char} (plain : ∀ c ∈ key, endsKey c = false)
      (blank : ∀ c ∈ gap, isBlank c = true) (balanced : Balanced inside) (whole : ';' ∉ behind) :
      Piece (key ++ '=' :: (gap ++ '\x7b' :: (inside ++ '\x7d' :: behind)))

/-- What can stand in front of an entry: pieces with a semicolon behind each. Behind a brace in a key
any place will do, since nothing is read there. -/
inductive Opening : List Char → Prop
  | nil : Opening []
  | piece {p more : List Char} (hp : Piece p) (hmore : Opening more) : Opening (p ++ ';' :: more)
  | stuck {key : List Char} {brace : Char} (plain : ∀ c ∈ key, endsKey c = false)
      (hbrace : brace ∈ ['\x7b', '\x7d']) (more : List Char) : Opening (key ++ brace :: more)

/-- A text that begins where an entry does, and the same with one blank more: around the key, around
the equals sign, in front of the semicolon, or inside the braces of the value. -/
inductive EntrySpaced (c : Char) : List Char → List Char → Prop
  | beforeKey (rest : List Char) : EntrySpaced c rest (c :: rest)
  | afterKey {key : List Char} (plain : ∀ d ∈ key, endsKey d = false) {ends : Char}
      (hends : endsKey ends = true) (rest : List Char) :
      EntrySpaced c (key ++ ends :: rest) (key ++ c :: ends :: rest)
  | afterEquals {key : List Char} (plain : ∀ d ∈ key, endsKey d = false) (rest : List Char) :
      EntrySpaced c (key ++ '=' :: rest) (key ++ '=' :: c :: rest)
  | beforeSemicolon {p : List Char} (hp : Piece p) (rest : List Char) :
      EntrySpaced c (p ++ ';' :: rest) (p ++ c :: ';' :: rest)
  | afterOpen {key gap inside : List Char} (plain : ∀ d ∈ key, endsKey d = false)
      (blank : ∀ d ∈ gap, isBlank d = true) (balanced : Balanced inside) (rest : List Char) :
      EntrySpaced c (key ++ '=' :: (gap ++ '\x7b' :: (inside ++ '\x7d' :: rest)))
        (key ++ '=' :: (gap ++ '\x7b' :: c :: (inside ++ '\x7d' :: rest)))
  | beforeClose {key gap inside : List Char} (plain : ∀ d ∈ key, endsKey d = false)
      (blank : ∀ d ∈ gap, isBlank d = true) (balanced : Balanced inside) (rest : List Char) :
      EntrySpaced c (key ++ '=' :: (gap ++ '\x7b' :: (inside ++ '\x7d' :: rest)))
        (key ++ '=' :: (gap ++ '\x7b' :: (inside ++ c :: '\x7d' :: rest)))

/-- An option text, and the same with one blank more: at its start, at its end or at an entry. A text
in braces is taken as the text inside them. -/
inductive Spaced : List Char → List Char → Prop
  | atStart {c : Char} (hc : isBlank c = true) (s : List Char) : Spaced s (c :: s)
  | atEnd {c : Char} (hc : isBlank c = true) (s : List Char) : Spaced s (s ++ [c])
  | atEntry {front s t : List Char} {c : Char} (hc : isBlank c = true) (hfront : Opening front)
      (unwrapped : ¬ InBraces (front ++ s)) (h : EntrySpaced c s t) : Spaced (front ++ s) (front ++ t)
  | wrapped {s t : List Char} (h : Spaced s t) (hs : s ≠ []) :
      Spaced ('\x7b' :: (s ++ ['\x7d'])) ('\x7b' :: (t ++ ['\x7d']))

/-- Two option texts that are the same but for blanks without a meaning. -/
def Respaced : List Char → List Char → Prop := Relation.EqvGen Spaced

variable {s t front key value inside behind piece : List Char} {c : Char}

/-! ## A blank in one entry -/

theorem emptied_trim_cons (hc : isBlank c = true) (s : List Char) :
    emptied (trim (c :: s)) = emptied (trim s) :=
  emptied_trim_blanks_append (List.forall_mem_singleton.mpr hc) s

theorem emptied_trim_concat (hc : isBlank c = true) (s : List Char) :
    emptied (trim (s ++ [c])) = emptied (trim s) :=
  emptied_trim_append_blanks (List.forall_mem_singleton.mpr hc) s

/-- A value without braces is read to the end of its text. -/
theorem next_unbraced (hunbraced : Unbraced value) (hwhole : ';' ∉ value) :
    ∃ token, next ';' value = .ok ⟨token, none⟩ := by
  unfold Unbraced at hunbraced
  unfold next
  cases hfront : value.dropWhile isBlank with
  | nil => exact ⟨_, rfl⟩
  | cons c t =>
    rw [hfront] at hunbraced
    have hbrace : c ≠ '\x7b' := fun heq => hunbraced (congrArg some heq)
    have hall : ∀ d ∈ c :: t, decide (d ≠ ';') = true := by
      intro d hd
      refine decide_eq_true ?_
      rintro rfl
      exact hwhole ((hfront ▸ List.dropWhile_suffix isBlank : c :: t <:+ value).subset hd)
    simp only [if_neg hbrace]
    unfold behind?
    rw [List.dropWhile_eq_nil_iff.mpr hall]
    exact ⟨_, rfl⟩

/-- What is read of a value in front of the semicolon that ends it: the same whatever follows, with
blanks or without. -/
theorem entryOf_value (key value : List Char)
    (hvalue : (∃ token, next ';' value = .ok ⟨token, none⟩)
      ∨ ∃ fault, ∀ more, next ';' (value ++ more) = .error fault) :
    (∃ fault?, ∀ blanks rest, (∀ c ∈ blanks, isBlank c = true) →
        entryOf key (value ++ (blanks ++ ';' :: rest)) = .error fault?)
      ∨ ∃ k v, ∀ blanks rest, (∀ c ∈ blanks, isBlank c = true) →
        entryOf key (value ++ (blanks ++ ';' :: rest)) = .ok ⟨k, v, some rest⟩ := by
  unfold entryOf
  by_cases hkey : emptied (trim key) = []
  · exact Or.inl ⟨some .emptyKey, fun _ _ _ => if_pos hkey⟩
  simp only [if_neg hkey]
  rcases hvalue with ⟨token, hnext⟩ | ⟨fault, hnext⟩
  · refine Or.inr ⟨emptied (trim key), emptied token, fun blanks rest hblanks => ?_⟩
    rw [next_append_none (by decide) (by decide) hblanks hnext]
  · refine Or.inl ⟨some fault, fun blanks rest _ => ?_⟩
    rw [hnext]

/-- What is read of a piece is the same whatever follows. -/
theorem Piece.first (hp : Piece piece) :
    (∃ fault?, ∀ blanks rest, (∀ c ∈ blanks, isBlank c = true) →
        firstStripped (piece ++ (blanks ++ ';' :: rest)) = .error fault?)
      ∨ ∃ k v, ∀ blanks rest, (∀ c ∈ blanks, isBlank c = true) →
        firstStripped (piece ++ (blanks ++ ';' :: rest)) = .ok ⟨k, v, some rest⟩ := by
  cases hp with
  | word plain =>
    refine Or.inl ⟨some .unexpectedCharInKey, fun blanks rest hblanks => ?_⟩
    have hplain : ∀ c ∈ piece ++ blanks, endsKey c = false :=
      List.forall_mem_append.mpr ⟨plain, fun c hc => endsKey_of_isBlank (hblanks c hc)⟩
    rw [← List.append_assoc, firstStripped_key hplain rfl, if_pos (by decide)]
  | @bare key value plain unbraced whole =>
    simp only [List.append_assoc, List.cons_append, firstStripped_entry plain]
    exact entryOf_value key value (Or.inl (next_unbraced unbraced whole))
  | @braced key gap inside behind plain blank balanced whole =>
    simp only [List.append_assoc, List.cons_append, firstStripped_entry plain]
    have hsplit : ∀ more, gap ++ '\x7b' :: (inside ++ '\x7d' :: behind) ++ more
        = gap ++ '\x7b' :: (inside ++ '\x7d' :: (behind ++ more)) := by simp
    have hvalue := entryOf_value key (gap ++ '\x7b' :: (inside ++ '\x7d' :: behind)) <| by
      cases hbehind : behind.dropWhile isBlank with
      | nil =>
        refine Or.inl ⟨trim inside, ?_⟩
        rw [next_in_braces blank balanced, hbehind]
      | cons d more =>
        have hd : d ≠ ';' := by
          rintro rfl
          exact whole ((hbehind ▸ List.dropWhile_suffix isBlank : ';' :: more <:+ behind).subset
            List.mem_cons_self)
        refine Or.inr ⟨.textBehindBrace, fun tail => ?_⟩
        rw [hsplit, next_in_braces blank balanced, dropWhile_append_of_cons hbehind]
        exact if_neg hd
    simpa only [hsplit] using hvalue

/-- What is read of a value in braces, if it is what is in the braces without its blanks. -/
theorem entryOf_braced (key : List Char) {gap s t : List Char}
    (hgap : ∀ c ∈ gap, isBlank c = true) (hs : Balanced s) (ht : Balanced t)
    (heq : emptied (trim s) = emptied (trim t)) (rest : List Char) :
    entryOf key (gap ++ '\x7b' :: (s ++ '\x7d' :: rest))
      = entryOf key (gap ++ '\x7b' :: (t ++ '\x7d' :: rest)) := by
  unfold entryOf
  rw [next_in_braces hgap hs, next_in_braces hgap ht]
  cases rest.dropWhile isBlank with
  | nil => simp only [heq]
  | cons d more => by_cases hd : d = ';' <;> simp only [hd, if_true, if_false, heq]

/-- **A blank more in an entry** changes nothing of what is read of it. -/
theorem EntrySpaced.first (hc : isBlank c = true) (h : EntrySpaced c s t) :
    firstStripped s = firstStripped t := by
  have hblank : ∀ d ∈ [c], isBlank d = true := List.forall_mem_singleton.mpr hc
  cases h with
  | beforeKey rest => exact (firstStripped_blanks_append hblank _).symm
  | @afterKey key plain ends hends rest =>
    have hplain : ∀ d ∈ key ++ [c], endsKey d = false :=
      List.forall_mem_append.mpr
        ⟨plain, List.forall_mem_singleton.mpr (endsKey_of_isBlank hc)⟩
    rw [List.append_cons key c, firstStripped_key plain hends, firstStripped_key hplain hends]
    unfold entryOf
    rw [emptied_trim_concat hc]
  | @afterEquals key plain rest =>
    rw [firstStripped_entry plain, firstStripped_entry plain]
    unfold entryOf
    rw [← List.singleton_append, next_blanks_append hblank]
  | @beforeSemicolon p hp rest =>
    rcases hp.first with ⟨fault?, hfirst⟩ | ⟨k, v, hfirst⟩
    · exact (hfirst [] rest (List.forall_mem_nil _)).trans (hfirst [c] rest hblank).symm
    · exact (hfirst [] rest (List.forall_mem_nil _)).trans (hfirst [c] rest hblank).symm
  | @afterOpen key gap inside plain blank balanced rest =>
    rw [firstStripped_entry plain, firstStripped_entry plain]
    exact entryOf_braced key blank balanced ((Balanced.of_blanks hblank).append balanced)
      (emptied_trim_cons hc inside).symm rest
  | @beforeClose key gap inside plain blank balanced rest =>
    rw [firstStripped_entry plain, firstStripped_entry plain, List.append_cons inside c]
    exact entryOf_braced key blank balanced (balanced.append (Balanced.of_blanks hblank))
      (emptied_trim_concat hc inside).symm rest

theorem readStripped_congr (h : firstStripped s = firstStripped t) :
    readStripped s = readStripped t := by
  rw [readStripped_eq, h, ← readStripped_eq]

/-- What stands in front is read whatever follows, or nothing that follows is. -/
theorem Opening.read (hfront : Opening front) (h : readStripped s = readStripped t) :
    readStripped (front ++ s) = readStripped (front ++ t) := by
  induction hfront with
  | nil => exact h
  | @piece p more hp _ ih =>
    simp only [List.append_assoc, List.cons_append]
    rw [readStripped_eq, readStripped_eq (p ++ ';' :: (more ++ t))]
    rcases hp.first with ⟨fault?, hfirst⟩ | ⟨k, v, hfirst⟩
    · have hboth := fun rest => hfirst [] rest (List.forall_mem_nil _)
      simp only [List.nil_append] at hboth
      rw [hboth, hboth]
    · have hboth := fun rest => hfirst [] rest (List.forall_mem_nil _)
      simp only [List.nil_append] at hboth
      rw [hboth, hboth]
      simp only [FirstEntry.onto, FirstEntry.pair, ih]
  | @stuck key brace plain hbrace more =>
    have hends : endsKey brace = true ∧ brace ≠ '=' := by
      simp only [List.mem_cons, List.not_mem_nil, or_false] at hbrace
      rcases hbrace with rfl | rfl <;> decide
    simp only [List.append_assoc, List.cons_append]
    refine readStripped_congr ?_
    rw [firstStripped_key plain hends.1, firstStripped_key plain hends.1, if_pos hends.2,
      if_pos hends.2]

/-! ## A blank in a text -/

theorem EntrySpaced.filter (hc : isBlank c = true) (h : EntrySpaced c s t) :
    s.filter (!isBlank ·) = t.filter (!isBlank ·) := by
  cases h <;> simp [List.filter_cons, hc]

theorem EntrySpaced.mem (h : EntrySpaced c s t) : c ∈ t := by
  cases h <;> simp

theorem Spaced.ne_nil (h : Spaced s t) : t ≠ [] := by
  cases h with
  | atStart => exact List.cons_ne_nil _ _
  | atEnd => exact List.append_ne_nil_of_right_ne_nil _ (List.cons_ne_nil _ _)
  | atEntry _ _ _ h => exact List.ne_nil_of_mem (List.mem_append_right _ h.mem)
  | wrapped => exact List.cons_ne_nil _ _

theorem filter_of_blanks (hs : ∀ c ∈ s, isBlank c = true) : s.filter (!isBlank ·) = [] :=
  List.filter_eq_nil_iff.mpr fun c hc => by rw [hs c hc]; decide

/-- No braces are dropped where there are none around the text. -/
theorem unwrap_trim (hs : ¬ InBraces s) : unwrap (trim s) = trim s := by
  rw [unwrap]
  refine dif_neg ?_
  rintro ⟨hlength, hhead, hlast⟩
  rcases blank_or_solid s with hblank | hsolid
  · rw [trim_of_forall_blank hblank] at hlength
    cases hend : s.getLast? <;> simp [hend] at hlength
  · obtain ⟨left, right, hsplit, hleft, hright, -, -⟩ := exists_trim hsolid
    have hfilter : s.filter (!isBlank ·) = (trim s).filter (!isBlank ·) := by
      conv_lhs => rw [hsplit]
      rw [List.filter_append, List.filter_append, filter_of_blanks hleft, filter_of_blanks hright,
        List.nil_append, List.append_nil]
    refine hs ⟨?_, ?_⟩
    · obtain ⟨t, ht⟩ := List.head?_eq_some_iff.mp hhead
      rw [hfilter, ht, List.filter_cons_of_pos (by decide), List.head?_cons]
    · obtain ⟨t, ht⟩ := List.getLast?_eq_some_iff.mp hlast
      rw [hfilter, ht, List.filter_append, List.filter_cons_of_pos (by decide), List.filter_nil,
        List.getLast?_concat]

/-- Braces around a whole text, unless nothing is inside, are dropped. -/
theorem unwrap_trim_inBraces (hs : s ≠ []) :
    unwrap (trim ('\x7b' :: (s ++ ['\x7d']))) = unwrap (trim s) := by
  have hlast : ('\x7b' :: (s ++ ['\x7d'])).getLast? = some '\x7d' := by
    rw [← List.cons_append, List.getLast?_concat]
  have htrimmed : Trimmed ('\x7b' :: (s ++ ['\x7d'])) := by
    refine ⟨fun c hc => ?_, fun c hc => ?_⟩
    · cases hc
      rfl
    · rw [hlast] at hc
      cases hc
      rfl
  have hlength : 2 < ('\x7b' :: (s ++ ['\x7d'])).length := by
    have hpos := List.length_pos_iff.mpr hs
    simp only [List.length_cons, List.length_append, List.length_nil]
    omega
  rw [trim_of_trimmed htrimmed, unwrap, dif_pos ⟨hlength, rfl, hlast⟩, List.drop_one,
    List.tail_cons, List.dropLast_concat]

/-- What a whole text says without its blanks. -/
def strippedOf (s : List Char) : Pairs := readStripped (unwrap (trim s))

theorem strippedOf_of_blank (hs : ∀ c ∈ s, isBlank c = true) : strippedOf s = ⟨[], none⟩ := by
  have hunwrapped : ¬ InBraces s := by
    rintro ⟨hopened, -⟩
    rw [filter_of_blanks hs] at hopened
    cases hopened
  unfold strippedOf
  rw [unwrap_trim hunwrapped, readStripped_trim, readStripped_of_blank hs]

/-- **A blank more** says nothing. -/
theorem Spaced.read (h : Spaced s t) : strippedOf s = strippedOf t := by
  induction h with
  | @atStart c hc s =>
    have hblank : ∀ d ∈ [c], isBlank d = true := List.forall_mem_singleton.mpr hc
    rcases blank_or_solid s with hs | ⟨d, hd, -⟩
    · rw [strippedOf_of_blank hs, strippedOf_of_blank (List.forall_mem_cons.mpr ⟨hc, hs⟩)]
    · unfold strippedOf
      rw [← List.singleton_append, trim_blanks_append hblank (List.ne_nil_of_mem hd)]
  | @atEnd c hc s =>
    have hblank : ∀ d ∈ [c], isBlank d = true := List.forall_mem_singleton.mpr hc
    rcases blank_or_solid s with hs | hs
    · rw [strippedOf_of_blank hs, strippedOf_of_blank (List.forall_mem_append.mpr ⟨hs, hblank⟩)]
    · unfold strippedOf
      rw [trim_append_blanks hblank hs]
  | @atEntry front s t c hc hfront unwrapped h =>
    have hunwrapped : ¬ InBraces (front ++ t) := by
      rintro ⟨hopened, hclosed⟩
      rw [List.filter_append, ← h.filter hc, ← List.filter_append] at hopened hclosed
      exact unwrapped ⟨hopened, hclosed⟩
    unfold strippedOf
    rw [unwrap_trim unwrapped, unwrap_trim hunwrapped, readStripped_trim, readStripped_trim]
    exact hfront.read (readStripped_congr (h.first hc))
  | wrapped h hs ih =>
    unfold strippedOf at ih ⊢
    rw [unwrap_trim_inBraces hs, unwrap_trim_inBraces h.ne_nil, ih]

/-- **Texts that are the same but for their blanks** say the same. -/
theorem Respaced.read (h : Respaced s t) : strippedOf s = strippedOf t := by
  induction h with
  | rel s t h => exact h.read
  | refl s => rfl
  | symm s t _ ih => exact ih.symm
  | trans s t u _ _ ih ih' => exact ih.trans ih'

end PageRegions.Token
