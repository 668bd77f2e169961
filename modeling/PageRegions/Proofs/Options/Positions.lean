import Mathlib.Data.List.Infix
import Mathlib.Data.List.TakeWhile
import PageRegions.Proofs.Options.Blanks

/-!
# Tokens by their positions

A token is read from a position of a text just if it stands there (`nextFrom_iff`): behind blanks,
up to a delimiter or to the end of the text. What stands there (`TokenAt`) is said without scanning.
A token that does not begin with a brace is the trimmed text up to the place where it ends, and
holds no delimiter. One that does is the trimmed text between this brace and the one that closes it,
and only blanks stand behind the two.

The brace that closes another one is the first behind which no more braces are open than before:
what is between the two has braces that match (`Balanced`), so none in front of it closes the first.
-/

set_option autoImplicit false

namespace PageRegions
namespace Token

open Text (isBlank trim)

variable {text s token rest : List Char} {delimiter : Char} {position i j : Nat}

/-! ## Positions of a text -/

/-- The first position from the given one on that has no blank, or the end of the text. -/
def solidFrom (text : List Char) (position : Nat) : Nat :=
  position + ((text.drop position).takeWhile isBlank).length

theorem drop_solidFrom (text : List Char) (position : Nat) :
    text.drop (solidFrom text position) = (text.drop position).dropWhile isBlank := by
  rw [solidFrom, ← List.drop_drop]
  exact (congrArg (List.drop _) List.takeWhile_append_dropWhile.symm).trans List.drop_left

theorem drop_of_getElem? {c : Char} (h : text[i]? = some c) :
    text.drop i = c :: text.drop (i + 1) := by
  obtain ⟨hi, rfl⟩ := List.getElem?_eq_some_iff.mp h
  exact List.drop_eq_getElem_cons hi

theorem getElem?_of_drop {c : Char} (h : text.drop i = c :: rest) :
    text[i]? = some c ∧ text.drop (i + 1) = rest := by
  rw [← List.head?_drop, ← List.tail_drop, h]
  exact ⟨rfl, rfl⟩

theorem drop_eq_extract_append (text : List Char) (hij : i ≤ j) :
    text.drop i = text.extract i j ++ text.drop j := by
  rw [List.extract_eq_take_drop]
  conv_lhs => rw [← List.take_append_drop (j - i) (text.drop i), List.drop_drop,
    Nat.add_sub_cancel' hij]

theorem extract_of_drop (hj : j ≤ text.length) (h : text.drop i = s ++ text.drop j) :
    text.extract i j = s := by
  have hlength := congrArg List.length h
  simp only [List.length_drop, List.length_append] at hlength
  rw [List.extract_eq_take_drop, h]
  exact List.take_left' (by omega)

/-- A suffix of a text stands as far from its start as the rest of the text is long. -/
theorem drop_of_suffix (h : s <:+ text) : text.drop (text.length - s.length) = s :=
  (List.suffix_iff_eq_drop.mp h).symm

/-! ## Tokens -/

/-- Whether a text closes as many braces as it opens and `depth` more, and none in front of that. -/
structure Closes (depth : Nat) (s : List Char) : Prop where
  opened : ∀ front, front <+: s → front.count '\x7d' ≤ front.count '\x7b' + depth
  closed : s.count '\x7b' + depth = s.count '\x7d'

theorem Closes.cons {c : Char} {depth inner : Nat} (h : Closes inner s)
    (hdepth : [c].count '\x7d' + inner = [c].count '\x7b' + depth) : Closes depth (c :: s) where
  opened front hfront := by
    rcases List.prefix_cons_iff.mp hfront with rfl | ⟨more, rfl, hmore⟩
    · exact Nat.zero_le _
    · have hopened := h.opened more hmore
      rw [← List.singleton_append, List.count_append, List.count_append]
      omega
  closed := by
    have hclosed := h.closed
    rw [← List.singleton_append, List.count_append, List.count_append]
    omega

/-- What stands in front of the brace that closes a text closes the braces that are open before. -/
theorem closes_of_splitAtClose {depth : Nat} {inside : List Char}
    (h : splitAtClose depth s = some (inside, rest)) : Closes depth inside := by
  induction s generalizing depth inside with
  | nil => cases h
  | cons c s ih =>
    by_cases hopen : c = '\x7b'
    · subst hopen
      rw [splitAtClose_open] at h
      obtain ⟨⟨_, _⟩, hmore, heq⟩ := Option.map_eq_some_iff.mp h
      cases heq
      exact (ih hmore).cons (by simp [Nat.add_comm])
    by_cases hclose : c = '\x7d'
    · subst hclose
      cases depth with
      | zero =>
        cases h
        exact ⟨fun front hfront => by rw [List.prefix_nil.mp hfront]; exact Nat.zero_le _, rfl⟩
      | succ depth =>
        rw [splitAtClose_close] at h
        obtain ⟨⟨_, _⟩, hmore, heq⟩ := Option.map_eq_some_iff.mp h
        cases heq
        exact (ih hmore).cons (by simp [Nat.add_comm])
    · rw [splitAtClose_other hopen hclose] at h
      obtain ⟨⟨_, _⟩, hmore, heq⟩ := Option.map_eq_some_iff.mp h
      cases heq
      refine (ih hmore).cons ?_
      rw [List.count_singleton, List.count_singleton, if_neg (by simpa using hclose),
        if_neg (by simpa using hopen)]

/-- What blanks stand around has braces that match if the whole has. -/
theorem Balanced.of_between {left right : List Char} (hleft : ∀ c ∈ left, isBlank c = true)
    (hright : ∀ c ∈ right, isBlank c = true) (h : Balanced (left ++ (s ++ right))) :
    Balanced s := by
  have hnone : ∀ {blanks : List Char}, (∀ c ∈ blanks, isBlank c = true) →
      blanks.count '\x7b' = 0 ∧ blanks.count '\x7d' = 0 := fun hblanks =>
    ⟨List.count_eq_zero_of_not_mem fun hmem => ne_of_isBlank (hblanks _ hmem) (by decide) rfl,
      List.count_eq_zero_of_not_mem fun hmem => ne_of_isBlank (hblanks _ hmem) (by decide) rfl⟩
  obtain ⟨hlopen, hlclose⟩ := hnone hleft
  obtain ⟨hropen, hrclose⟩ := hnone hright
  constructor
  · intro front hfront
    have hopened := h.opened (left ++ front) ((List.prefix_append_right_inj left).mpr
      (hfront.trans (List.prefix_append s right)))
    simpa only [List.count_append, hlopen, hlclose, Nat.zero_add] using hopened
  · have hclosed := h.closed
    simpa only [List.count_append, hlopen, hlclose, hropen, hrclose, Nat.zero_add,
      Nat.add_zero] using hclosed

theorem Balanced.trim (h : Balanced s) : Balanced (trim s) := by
  rcases blank_or_solid s with hblank | hsolid
  · exact .of_blanks (trim_of_blanks hblank)
  · obtain ⟨left, right, hsplit, hleft, hright, -, -⟩ := exists_trim hsolid
    rw [hsplit] at h
    exact .of_between hleft hright h

/-- What is no blank is not trimmed off. -/
theorem mem_trim {c : Char} (hc : isBlank c = false) : c ∈ Text.trim s ↔ c ∈ s := by
  have hout : ∀ {blanks : List Char}, (∀ d ∈ blanks, isBlank d = true) → c ∉ blanks :=
    fun hblanks hmem => ne_of_isBlank (hblanks c hmem) hc rfl
  rcases blank_or_solid s with hblank | hsolid
  · exact iff_of_false (hout (trim_of_blanks hblank)) (hout hblank)
  · obtain ⟨left, right, hsplit, hleft, hright, -, -⟩ := exists_trim hsolid
    conv_rhs => rw [hsplit, List.mem_append, List.mem_append]
    simp only [hout hleft, hout hright, false_or, or_false]

/-! ## Where a token is read -/

/-- A token in braces: the braces that are opened and closed at two positions, the token between
them, and nothing but blanks behind them to where it ends. -/
structure BracedAt (text : List Char) (opening close stop : Nat) (token : List Char) : Prop where
  before : opening < close
  within : close < stop
  closed : text[close]? = some '\x7d'
  inside : Balanced (text.extract (opening + 1) close)
  token_eq : token = trim (text.extract (opening + 1) close)
  balanced : Balanced token
  blank : ∀ c ∈ text.extract (close + 1) stop, isBlank c = true

/-- A token that is read from a position on, and where it ends: at a delimiter, or with the text. -/
structure TokenAt (delimiter : Char) (text : List Char) (position : Nat) (token : List Char)
    (stop? : Option Nat) : Prop where
  ends : ∀ stop, stop? = some stop → position ≤ stop ∧ text[stop]? = some delimiter
  bare : text[solidFrom text position]? ≠ some '\x7b' →
    token = trim (text.extract (solidFrom text position) (stop?.getD text.length))
      ∧ delimiter ∉ token
  braced : text[solidFrom text position]? = some '\x7b' →
    ∃ close, BracedAt text (solidFrom text position) close (stop?.getD text.length) token

/-- The position of the delimiter in front of a rest. -/
def stopOf (text : List Char) (rest? : Option (List Char)) : Option Nat :=
  rest?.map fun rest => text.length - rest.length - 1

/-- Where the rest of a text begins that stands behind a delimiter. -/
theorem drop_stopOf (h : delimiter :: rest <:+ text.drop position) :
    position ≤ text.length - rest.length - 1
      ∧ text.drop (text.length - rest.length - 1) = delimiter :: rest := by
  have hlength := h.length_le
  simp only [List.length_cons, List.length_drop] at hlength
  refine ⟨by omega, ?_⟩
  rw [Nat.sub_sub]
  exact drop_of_suffix (h.trans (List.drop_suffix position text))

theorem BracedAt.of_drop {opening stop : Nat} {inside behind blanks : List Char}
    (hdrop : text.drop opening = '\x7b' :: (inside ++ '\x7d' :: behind)) (hinside : Balanced inside)
    (hbehind : behind = blanks ++ text.drop stop) (hblanks : ∀ c ∈ blanks, isBlank c = true)
    (hstop : stop ≤ text.length) :
    BracedAt text opening (opening + 1 + inside.length) stop (trim inside) := by
  obtain ⟨-, hopened⟩ := getElem?_of_drop hdrop
  have hclose : text.drop (opening + 1 + inside.length) = '\x7d' :: behind := by
    rw [← List.drop_drop, hopened, List.drop_left]
  obtain ⟨hclosed, hmore⟩ := getElem?_of_drop hclose
  have hlength := congrArg List.length hclose
  rw [hbehind] at hlength
  simp only [List.length_drop, List.length_cons, List.length_append] at hlength
  have hextract : text.extract (opening + 1) (opening + 1 + inside.length) = inside :=
    extract_of_drop (by omega) (by rw [hclose, hopened])
  constructor
  · omega
  · omega
  · exact hclosed
  · rw [hextract]
    exact hinside
  · rw [hextract]
  · exact hinside.trim
  · rw [extract_of_drop hstop (hmore.trans hbehind)]
    exact hblanks

/-- A text that ends, or goes on with a delimiter, from the position on at which a token ends. -/
theorem drop_stop {rest? : Option (List Char)}
    (h : ∀ rest, rest? = some rest → delimiter :: rest <:+ text.drop position) :
    text.drop ((stopOf text rest?).getD text.length) = followedBy delimiter rest? := by
  cases rest? with
  | none => exact List.drop_length
  | some rest => exact (drop_stopOf (h rest rfl)).2

theorem stop_le (text : List Char) (rest? : Option (List Char)) :
    (stopOf text rest?).getD text.length ≤ text.length := by
  cases rest? with
  | none => exact Nat.le_refl _
  | some rest => exact (Nat.sub_le _ _).trans (Nat.sub_le _ _)

/-- What is in front of the first delimiter, and what follows. -/
theorem takeWhile_append_followedBy (delimiter : Char) (s : List Char) :
    s.takeWhile (· ≠ delimiter) ++ followedBy delimiter (behind? delimiter s) = s := by
  rcases hrest : behind? delimiter s with _ | rest
  · rw [List.takeWhile_eq_self_iff.mpr (behind?_eq_none hrest)]
    exact List.append_nil s
  · exact (congrArg (s.takeWhile (· ≠ delimiter) ++ ·) (behind?_eq_some hrest).symm).trans
      List.takeWhile_append_dropWhile

/-- **What is read is a token**, at the position that it is read from. -/
theorem tokenAt_of_next {rest? : Option (List Char)} (hdelimiter : isBlank delimiter = false)
    (h : next delimiter (text.drop position) = .ok ⟨token, rest?⟩) :
    TokenAt delimiter text position token (stopOf text rest?) := by
  have hsuffix : ∀ rest, rest? = some rest → delimiter :: rest <:+ text.drop position := by
    rintro rest rfl
    exact next_suffix h
  have hends : ∀ stop, stopOf text rest? = some stop →
      position ≤ stop ∧ text[stop]? = some delimiter := by
    intro stop hstop
    obtain ⟨rest, rfl, rfl⟩ := Option.map_eq_some_iff.mp hstop
    obtain ⟨hle, hdrop⟩ := drop_stopOf (hsuffix rest rfl)
    exact ⟨hle, (getElem?_of_drop hdrop).1⟩
  have hstop := drop_stop hsuffix
  have hfirst := drop_solidFrom text position
  unfold next at h
  split at h
  · next hblank =>
    rw [hblank] at hfirst
    cases h
    refine ⟨hends, fun _ => ?_, fun hopen => ?_⟩
    · rw [List.extract_eq_take_drop, hfirst, List.take_nil]
      exact ⟨rfl, List.not_mem_nil⟩
    · rw [← List.head?_drop, hfirst] at hopen
      cases hopen
  · next c t hsolid =>
    rw [hsolid] at hfirst
    obtain ⟨hchar, -⟩ := getElem?_of_drop hfirst
    split at h
    · next hopen =>
      subst hopen
      refine ⟨hends, fun hbare => absurd hchar hbare, fun _ => ?_⟩
      split at h
      · cases h
      · next inside behind hsplit =>
        rw [splitAtClose_eq_append hsplit] at hfirst
        obtain ⟨hopened, hclosed⟩ := closes_of_splitAtClose hsplit
        -- Behind the closing brace there are blanks, and then what the token ends at.
        have hbehind : token = trim inside
            ∧ behind.dropWhile isBlank = followedBy delimiter rest? := by
          split at h
          · next hnone =>
            cases h
            exact ⟨rfl, hnone⟩
          · next d rest hsome =>
            split at h
            · next hd =>
              cases h
              exact ⟨rfl, hd ▸ hsome⟩
            · cases h
        obtain ⟨rfl, hbehind⟩ := hbehind
        have hblanks : ∀ c ∈ behind.takeWhile isBlank, isBlank c = true := fun c hc =>
          List.mem_takeWhile_imp hc
        refine ⟨_, .of_drop hfirst ⟨hopened, hclosed⟩ ?_ hblanks (stop_le text rest?)⟩
        rw [hstop, ← hbehind, List.takeWhile_append_dropWhile]
    · next hopen =>
      refine ⟨hends, fun _ => ?_, fun hbrace => ?_⟩
      · obtain ⟨rfl, rfl⟩ := Scan.mk.inj (Except.ok.inj h)
        have hextract : text.extract (solidFrom text position)
            ((stopOf text (behind? delimiter (c :: t))).getD text.length)
              = (c :: t).takeWhile (· ≠ delimiter) :=
          extract_of_drop (stop_le text _)
            (by rw [hfirst, hstop, takeWhile_append_followedBy])
        rw [hextract]
        refine ⟨rfl, fun hmem => ?_⟩
        have hother := List.mem_takeWhile_imp ((mem_trim hdelimiter).mp hmem)
        exact absurd rfl (of_decide_eq_true hother)
      · rw [hchar] at hbrace
        exact absurd (Option.some.inj hbrace) hopen

/-- No blank is skipped behind a position that holds none. -/
theorem solidFrom_le {c : Char} (hle : position ≤ i) (hi : text[i]? = some c)
    (hc : isBlank c = false) : solidFrom text position ≤ i := by
  refine Nat.le_of_not_lt fun hlt => ?_
  have hwithin : i - position < ((text.drop position).takeWhile isBlank).length := by
    rw [solidFrom] at hlt
    omega
  have hskipped : ((text.drop position).takeWhile isBlank)[i - position]? = some c := by
    rw [← List.getElem?_append_left hwithin, List.takeWhile_append_dropWhile, List.getElem?_drop,
      Nat.add_sub_cancel' hle, hi]
  have hblank := List.mem_takeWhile_imp (List.mem_of_getElem? hskipped)
  rw [hc] at hblank
  cases hblank

/-- What a text goes on with behind a token that ends at a delimiter. -/
def restAt (text : List Char) (stop? : Option Nat) : Option (List Char) :=
  stop?.map fun stop => text.drop (stop + 1)

theorem drop_restAt {stop? : Option Nat}
    (h : ∀ stop, stop? = some stop → text[stop]? = some delimiter) :
    text.drop (stop?.getD text.length) = followedBy delimiter (restAt text stop?) := by
  cases stop? with
  | none => exact List.drop_length
  | some stop => exact drop_of_getElem? (h stop rfl)

theorem stopOf_restAt {stop? : Option Nat}
    (h : ∀ stop, stop? = some stop → text[stop]? = some delimiter) :
    stopOf text (restAt text stop?) = stop? := by
  cases stop? with
  | none => rfl
  | some stop =>
    obtain ⟨hlt, -⟩ := List.getElem?_eq_some_iff.mp (h stop rfl)
    simp only [stopOf, restAt, Option.map_some, List.length_drop]
    exact congrArg some (by omega)

/-- A token without braces is what stands in front of the first delimiter. -/
theorem next_unbraced_front {front : List Char} {rest? : Option (List Char)}
    (hsolid : s.dropWhile isBlank = front ++ followedBy delimiter rest?)
    (hopen : (s.dropWhile isBlank).head? ≠ some '\x7b') (hfree : delimiter ∉ front) :
    next delimiter s = .ok ⟨trim front, rest?⟩ := by
  have hall : ∀ c ∈ front, decide (c ≠ delimiter) = true := fun c hc =>
    decide_eq_true fun heq => hfree (heq ▸ hc)
  have hfront : (front ++ followedBy delimiter rest?).takeWhile (· ≠ delimiter) = front := by
    rw [List.takeWhile_append_of_pos hall]
    cases rest? with
    | none => exact List.append_nil front
    | some rest => simp [followedBy]
  have hbehind : behind? delimiter (front ++ followedBy delimiter rest?) = rest? := by
    unfold behind?
    rw [List.dropWhile_append_of_pos hall]
    cases rest? with
    | none => rfl
    | some rest => simp [followedBy]
  unfold next
  rw [hsolid] at hopen ⊢
  generalize htext : front ++ followedBy delimiter rest? = text at *
  cases text with
  | nil =>
    subst hfront hbehind
    rfl
  | cons c t =>
    have hc : c ≠ '\x7b' := fun heq => hopen (congrArg some heq)
    simp only [if_neg hc, hfront, hbehind]

/-- **What is a token** at a position is read from there. -/
theorem next_of_tokenAt {stop? : Option Nat} (hdelimiter : isBlank delimiter = false)
    (h : TokenAt delimiter text position token stop?) :
    next delimiter (text.drop position) = .ok ⟨token, restAt text stop?⟩ := by
  have hends := fun stop hstop => (h.ends stop hstop).2
  have hstop := drop_restAt hends
  have hfirst := drop_solidFrom text position
  by_cases hopen : text[solidFrom text position]? = some '\x7b'
  · obtain ⟨close, hat⟩ := h.braced hopen
    have hwhole := List.takeWhile_append_dropWhile (p := isBlank) (l := text.drop position)
    rw [← hfirst, drop_of_getElem? hopen, drop_eq_extract_append text hat.before,
      drop_of_getElem? hat.closed, drop_eq_extract_append text hat.within, hstop] at hwhole
    rw [← hwhole, next_in_braces (fun c hc => List.mem_takeWhile_imp hc) hat.inside,
      List.dropWhile_append_of_pos hat.blank, ← hat.token_eq]
    cases stop? with
    | none => rfl
    | some stop =>
      simp only [restAt, Option.map_some, followedBy]
      rw [List.dropWhile_cons_of_neg (by rw [hdelimiter]; decide)]
      exact if_pos rfl
  · obtain ⟨htoken, hfree⟩ := h.bare hopen
    -- A token at the end of the text may be read from a position behind it.
    have hsplit : text.drop (solidFrom text position)
        = text.extract (solidFrom text position) (stop?.getD text.length)
          ++ followedBy delimiter (restAt text stop?) := by
      rw [← hstop]
      cases stop? with
      | none =>
        rw [List.extract_eq_take_drop, Option.getD_none, List.drop_length, List.append_nil,
          List.take_of_length_le (Nat.le_of_eq (List.length_drop ..))]
      | some stop =>
        obtain ⟨hle, hat⟩ := h.ends stop rfl
        exact drop_eq_extract_append text (solidFrom_le hle hat hdelimiter)
    rw [htoken] at hfree ⊢
    refine next_unbraced_front (hfirst ▸ hsplit) (by rwa [← hfirst, List.head?_drop]) fun hmem => ?_
    exact hfree ((mem_trim hdelimiter).mpr hmem)

/-- **Tokens are where they are said to be**: one is read from a position of a text if and only if
there is one at that position. -/
theorem nextFrom_iff {stop? : Option Nat} (hdelimiter : isBlank delimiter = false) :
    nextFrom delimiter text position = .ok (token, stop?)
      ↔ TokenAt delimiter text position token stop? := by
  constructor
  · intro h
    unfold nextFrom at h
    rcases hnext : next delimiter (text.drop position) with fault | ⟨read, rest?⟩
    · rw [hnext] at h
      cases h
    · rw [hnext] at h
      cases h
      exact tokenAt_of_next hdelimiter hnext
  · intro h
    have hstop := stopOf_restAt fun stop hstop => (h.ends stop hstop).2
    unfold nextFrom
    rw [next_of_tokenAt hdelimiter h]
    exact congrArg (fun stop? => Except.ok (token, stop?)) hstop

end Token
end PageRegions
