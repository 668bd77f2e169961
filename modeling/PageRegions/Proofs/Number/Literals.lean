import PageRegions.Proofs.Number.Integers

/-!
# What floating-point numbers look like

A floating-point numeral is, behind blanks and a sign, a decimal or hexadecimal number, an infinity,
or a word for no number (`IsBinary64`). The reader takes a whole text just if it is one
(`literal?_whole`, `exists_of_literal?`).

That the reader tries the words first and the hexadecimal mark before the decimal number does not
matter: what is left to a later attempt begins with another letter.
-/

set_option autoImplicit false

namespace PageRegions
namespace Reading

variable {value? : Char → Option Nat} {s rest : List Char}

/-! ## Numerals -/

/-- Digits with at most one point among them. -/
inductive Pointed (value? : Char → Option Nat) : List Char → Prop
  | whole {ds : List Char} (digits : Digits value? ds) (some : ds ≠ []) : Pointed value? ds
  | point {ds places : List Char} (digits : Digits value? ds) (digits' : Digits value? places)
      (some : ds ≠ [] ∨ places ≠ []) : Pointed value? (ds ++ '.' :: places)

/-- An exponent behind one of two marks, or none. -/
inductive Exponent (lower upper : Char) : List Char → Prop
  | absent : Exponent lower upper []
  | marked {c : Char} {sign ds : List Char} (mark : c = lower ∨ c = upper) (isSign : IsSign sign)
      (digits : Digits digit? ds) (some : ds ≠ []) : Exponent lower upper (c :: (sign ++ ds))

/-- A word, in whatever case. -/
def IsWord (word : String) (s : List Char) : Prop := s.map Char.toLower = word.toList

/-- A floating-point number behind its sign. -/
inductive IsUnsigned : List Char → Prop
  | infinite {w : List Char} (word : IsWord "inf" w ∨ IsWord "infinity" w) : IsUnsigned w
  | undefined {w : List Char} (word : IsWord "nan" w) : IsUnsigned w
  | grouped {w inside : List Char} (word : IsWord "nan" w)
      (group : ∀ c ∈ inside, isGroupChar c = true) : IsUnsigned (w ++ '(' :: (inside ++ [')']))
  | hexadecimal {w m e : List Char} (mark : IsWord "0x" w) (mantissa : Pointed hexDigit? m)
      (exponent : Exponent 'p' 'P' e) : IsUnsigned (w ++ (m ++ e))
  | decimal {m e : List Char} (mantissa : Pointed digit? m) (exponent : Exponent 'e' 'E' e) :
      IsUnsigned (m ++ e)

def IsBinary64 : List Char → Prop := Signed IsUnsigned

/-! ## Digits with a point -/

theorem takePointed_whole (base : Nat) {ds : List Char} (hds : Digits value? ds)
    (hrest : Stops value? rest) (hpoint : rest.head? ≠ some '.') :
    ∃ m, takePointed base value? (ds ++ rest) = (m, ds.length, 0, rest) := by
  obtain ⟨m, hm⟩ := takeDigits_append base 0 0 hds
  refine ⟨m, ?_⟩
  unfold takePointed
  rw [hm rest hrest, Nat.zero_add]
  split
  · next heq =>
    cases heq
    exact absurd rfl hpoint
  · next heq =>
    cases heq
    rfl

theorem takePointed_point (base : Nat) {ds places : List Char} (hdot : value? '.' = none)
    (hds : Digits value? ds) (hplaces : Digits value? places) (hrest : Stops value? rest)
    (hsome : ds ≠ [] ∨ places ≠ []) :
    ∃ m p, takePointed base value? (ds ++ '.' :: (places ++ rest))
      = (m, ds.length + places.length, p, rest) := by
  obtain ⟨m, hm⟩ := takeDigits_append base 0 0 hds
  obtain ⟨m', hm'⟩ := takeDigits_append base m 0 hplaces
  have hwhole := hm ('.' :: (places ++ rest)) (stops_cons hdot)
  have hpart := hm' rest hrest
  rw [Nat.zero_add] at hwhole hpart
  cases places with
  | nil =>
    refine ⟨m, 0, ?_⟩
    have hpos : ds.length ≠ 0 := by simpa using hsome
    rw [List.nil_append] at hwhole hpart
    unfold takePointed
    simp only [List.nil_append, hwhole, hpart, List.length_nil, if_neg hpos, Nat.add_zero]
  | cons d more =>
    refine ⟨m', (d :: more).length, ?_⟩
    unfold takePointed
    simp only [hwhole, hpart, List.length_cons]

theorem takePointed_none (base : Nat) (hdot : value? '.' = none) (hrest : Stops value? rest) :
    takePointed base value? ('.' :: rest) = (0, 0, 0, '.' :: rest) := by
  have hwhole : takeDigits base value? 0 0 ('.' :: rest) = (0, 0, '.' :: rest) := by
    rw [takeDigits, hdot]
  have hempty : Digits value? [] := List.forall_mem_nil _
  obtain ⟨m, hm⟩ := takeDigits_append base 0 0 hempty
  have hpart := hm rest hrest
  rw [List.nil_append, List.length_nil] at hpart
  unfold takePointed
  simp only [hwhole, hpart, if_true]

theorem Pointed.read {m : List Char} (hm : Pointed value? m) (base : Nat)
    (hdot : value? '.' = none) (hrest : Stops value? rest) (hpoint : rest.head? ≠ some '.') :
    ∃ x n p, takePointed base value? (m ++ rest) = (x, n + 1, p, rest) := by
  cases hm with
  | whole digits hne =>
    obtain ⟨x, heq⟩ := takePointed_whole base digits hrest hpoint
    obtain ⟨d, more, rfl⟩ := List.exists_cons_of_ne_nil hne
    exact ⟨x, more.length, 0, heq⟩
  | @point ds places digits digits' hsome =>
    obtain ⟨x, p, heq⟩ := takePointed_point base hdot digits digits' hrest hsome
    have hpos : ds.length + places.length ≠ 0 := by
      rw [Ne, Nat.add_eq_zero_iff, List.length_eq_zero_iff, List.length_eq_zero_iff, not_and_or]
      exact hsome
    obtain ⟨n, hn⟩ := Nat.exists_eq_succ_of_ne_zero hpos
    refine ⟨x, n, p, ?_⟩
    rw [List.append_assoc, List.cons_append, heq, hn]

theorem exists_pointed (hdot : value? '.' = none) {base x n p : Nat}
    (h : takePointed base value? s = (x, n + 1, p, rest)) :
    ∃ m, s = m ++ rest ∧ Pointed value? m := by
  obtain ⟨ds, t, rfl, hds, ht⟩ := exists_digits value? s
  by_cases hpoint : t.head? = some '.'
  · obtain ⟨c, u, rfl⟩ := List.exists_cons_of_ne_nil (l := t) (by rintro rfl; cases hpoint)
    cases hpoint
    obtain ⟨places, v, rfl, hplaces, hv⟩ := exists_digits value? u
    by_cases hsome : ds ≠ [] ∨ places ≠ []
    · obtain ⟨m, q, heq⟩ := takePointed_point base hdot hds hplaces hv hsome
      rw [heq, Prod.mk.injEq, Prod.mk.injEq, Prod.mk.injEq] at h
      obtain ⟨-, -, -, rfl⟩ := h
      exact ⟨ds ++ '.' :: places, by rw [List.append_assoc, List.cons_append],
        .point hds hplaces hsome⟩
    · rw [not_or, not_not, not_not] at hsome
      obtain ⟨rfl, rfl⟩ := hsome
      rw [List.nil_append, List.nil_append, takePointed_none base hdot hv] at h
      cases h
  · obtain ⟨m, heq⟩ := takePointed_whole base hds ht hpoint
    rw [heq, Prod.mk.injEq, Prod.mk.injEq, Prod.mk.injEq] at h
    obtain ⟨-, hn, -, rfl⟩ := h
    refine ⟨ds, rfl, .whole hds ?_⟩
    rintro rfl
    cases hn

/-! ## Exponents -/

variable {lower upper : Char}

theorem Exponent.read {e : List Char} (he : Exponent lower upper e) :
    ∃ x, takeExponent lower upper e = (x, []) := by
  cases he with
  | absent => exact ⟨0, rfl⟩
  | @marked c sign ds mark isSign digits hne =>
    have hsign := takeSign_append isSign (leads_of_digits hne digits) []
    obtain ⟨v, hv⟩ := takeDigits_append 10 0 0 digits
    have hdigits := hv [] stops_nil
    rw [List.append_nil] at hsign hdigits
    have hmark : (decide (c = lower) || decide (c = upper)) = true := by simpa using mark
    obtain ⟨d, more, rfl⟩ := List.exists_cons_of_ne_nil hne
    refine ⟨if decide (sign = ['-']) = true then -(v : Int) else v, ?_⟩
    unfold takeExponent
    simp only [if_pos hmark, hsign, hdigits]
    rfl

theorem exists_exponent (lower upper : Char) (s : List Char) :
    ∃ e, s = e ++ (takeExponent lower upper s).2 ∧ Exponent lower upper e := by
  rcases h : takeExponent lower upper s with ⟨x, rest⟩
  unfold takeExponent at h
  split at h
  · cases h
    exact ⟨[], rfl, .absent⟩
  · next c t =>
    split at h
    · next hmark =>
      obtain ⟨sign, ht, hsign⟩ := exists_sign t
      obtain ⟨ds, u, hbody, hds, hu⟩ := exists_digits digit? (takeSign t).2
      obtain ⟨v, hv⟩ := takeDigits_append 10 0 0 hds
      have hdigits := hv u hu
      rw [← hbody, Nat.zero_add] at hdigits
      simp only [hdigits] at h
      cases ds with
      | nil =>
        cases h
        exact ⟨[], rfl, .absent⟩
      | cons d more =>
        cases h
        refine ⟨c :: (sign ++ (d :: more)), ?_,
          .marked (by simpa using hmark) hsign hds (List.cons_ne_nil d more)⟩
        rw [ht, hbody]
        simp only [List.cons_append, List.append_assoc]
    · cases h
      exact ⟨[], rfl, .absent⟩

/-! ## Words -/

theorem dropWord?_append {word : String} {w : List Char} (hw : IsWord word w) (rest : List Char) :
    dropWord? word (w ++ rest) = some rest := by
  have hlen : w.length = word.length := by
    rw [← String.length_toList, ← hw, List.length_map]
  unfold dropWord?
  rw [← hlen, List.take_left, List.drop_left]
  exact if_pos hw

theorem exists_word {word : String} (h : dropWord? word s = some rest) :
    ∃ w, s = w ++ rest ∧ IsWord word w := by
  unfold dropWord? at h
  split at h
  · next hw =>
    cases h
    exact ⟨_, (List.take_append_drop ..).symm, hw⟩
  · cases h

/-- A text without one of its letters does not begin with the word. -/
theorem dropWord?_of_not_mem {word : String} {c : Char} (hc : c ∈ word.toList)
    (hs : ∀ d ∈ s, d.toLower ≠ c) : dropWord? word s = none := by
  refine if_neg fun hw => ?_
  rw [← hw, List.mem_map] at hc
  obtain ⟨d, hd, he⟩ := hc
  exact hs d (List.mem_of_mem_take hd) he

/-! ## The letters of numerals -/

theorem IsSign.mem {c : Char} (hs : IsSign s) (hc : c ∈ s) : c ∈ "+-".toList := by
  rcases hs with rfl | rfl | rfl
  · cases hc
  · rw [List.mem_singleton.mp hc]
    decide
  · rw [List.mem_singleton.mp hc]
    decide

theorem Pointed.mem {digits : List Char} {c : Char} (hs : Pointed value? s)
    (hall : ∀ c, (value? c).isSome = true → c ∈ digits) (hc : c ∈ s) : c ∈ '.' :: digits := by
  cases hs with
  | whole hds => exact List.mem_cons_of_mem _ (hall c (hds c hc))
  | point hds hplaces =>
    rw [List.mem_append, List.mem_cons] at hc
    rcases hc with hc | rfl | hc
    · exact List.mem_cons_of_mem _ (hall c (hds c hc))
    · exact List.mem_cons_self
    · exact List.mem_cons_of_mem _ (hall c (hplaces c hc))

theorem Exponent.mem {c : Char} (hs : Exponent lower upper s) (hc : c ∈ s) :
    c ∈ lower :: upper :: "+-0123456789".toList := by
  cases hs with
  | absent => cases hc
  | marked mark isSign hds =>
    have hsigns : "+-".toList ⊆ "+-0123456789".toList := by decide
    have hdigits : "0123456789".toList ⊆ "+-0123456789".toList := by decide
    rw [List.mem_cons, List.mem_append] at hc
    rcases hc with rfl | hc | hc
    · rcases mark with rfl | rfl
      · exact List.mem_cons_self
      · exact List.mem_cons_of_mem _ List.mem_cons_self
    · exact List.mem_cons_of_mem _ (List.mem_cons_of_mem _ (hsigns (isSign.mem hc)))
    · exact List.mem_cons_of_mem _ (List.mem_cons_of_mem _ (hdigits (mem_of_digit? (hds c hc))))

theorem IsWord.mem {word : String} {w : List Char} {c : Char} (hw : IsWord word w) (hc : c ∈ w) :
    c.toLower ∈ word.toList := by
  rw [← hw]
  exact List.mem_map_of_mem hc

theorem decimal_mem {m e : List Char} {c : Char} (hm : Pointed digit? m)
    (he : Exponent 'e' 'E' e) (hc : c ∈ m ++ e) : c ∈ ".0123456789eE+-".toList := by
  have hmantissa : '.' :: "0123456789".toList ⊆ ".0123456789eE+-".toList := by decide
  have hexponent : 'e' :: 'E' :: "+-0123456789".toList ⊆ ".0123456789eE+-".toList := by decide
  rcases List.mem_append.mp hc with hc | hc
  · exact hmantissa (hm.mem (fun _ => mem_of_digit?) hc)
  · exact hexponent (he.mem hc)

theorem hexadecimal_mem {m e : List Char} {c : Char} (hm : Pointed hexDigit? m)
    (he : Exponent 'p' 'P' e) (hc : c ∈ m ++ e) : c ∈ ".0123456789abcdefABCDEFpP+-".toList := by
  have hmantissa : '.' :: "0123456789abcdefABCDEF".toList
      ⊆ ".0123456789abcdefABCDEFpP+-".toList := by decide
  have hexponent : 'p' :: 'P' :: "+-0123456789".toList
      ⊆ ".0123456789abcdefABCDEFpP+-".toList := by decide
  rcases List.mem_append.mp hc with hc | hc
  · exact hmantissa (hm.mem (fun _ => mem_of_hexDigit?) hc)
  · exact hexponent (he.mem hc)

/-- No numeral has a NUL byte in it. -/
theorem IsUnsigned.not_mem_nul (hs : IsUnsigned s) : '\x00' ∉ s := by
  have hword : ∀ {word : String} {w : List Char}, IsWord word w → '\x00' ∉ word.toList →
      '\x00' ∉ w := fun hw hnot hc => hnot (hw.mem hc)
  cases hs with
  | infinite word => exact word.elim (hword · (by decide)) (hword · (by decide))
  | undefined word => exact hword word (by decide)
  | grouped word group =>
    rw [List.mem_append, List.mem_cons, List.mem_append, not_or, not_or, not_or]
    refine ⟨hword word (by decide), by decide, fun hc => ?_, by decide⟩
    exact Bool.false_ne_true (group _ hc)
  | hexadecimal mark mantissa exponent =>
    rw [List.mem_append, not_or]
    have hnot : '\x00' ∉ ".0123456789abcdefABCDEFpP+-".toList := by decide
    exact ⟨hword mark (by decide), fun hc => hnot (hexadecimal_mem mantissa exponent hc)⟩
  | decimal mantissa exponent =>
    have hnot : '\x00' ∉ ".0123456789eE+-".toList := by decide
    exact fun hc => hnot (decimal_mem mantissa exponent hc)

/-! ## The first letter -/

theorem toLower_of_isBlank {c : Char} (hc : Text.isBlank c = true) : c.toLower = c := by
  unfold Text.isBlank at hc
  rw [Bool.or_eq_true, Bool.and_eq_true, decide_eq_true_iff, decide_eq_true_iff,
    decide_eq_true_iff] at hc
  rcases hc with rfl | ⟨hlow, hhigh⟩
  · rfl
  · change 9 ≤ c.toNat at hlow
    change c.toNat ≤ 13 at hhigh
    rw [← Char.ofNat_toNat c]
    interval_cases c.toNat <;> rfl

theorem leads_of_toLower {c : Char} (hc : c.toLower ∈ "in0".toList) : Leads (c :: s) := by
  have hall : ∀ d ∈ "in0".toList, Text.isBlank d = false ∧ d ≠ '-' ∧ d ≠ '+' :=
    List.forall_iff_forall_mem.mp (by decide)
  obtain ⟨hblank, hminus, hplus⟩ := hall _ hc
  refine ⟨c, s, rfl, ?_, ?_, ?_⟩
  · by_contra hnot
    rw [Bool.not_eq_false] at hnot
    rw [toLower_of_isBlank hnot, hnot] at hblank
    cases hblank
  · rintro rfl
    exact hminus rfl
  · rintro rfl
    exact hplus rfl

theorem IsWord.head {word : String} {w : List Char} {l : Char} {ls : List Char}
    (hw : IsWord word w) (hword : word.toList = l :: ls) :
    ∃ c more, w = c :: more ∧ c.toLower = l := by
  rw [IsWord, hword, List.map_eq_cons_iff] at hw
  obtain ⟨c, more, heq, hc, -⟩ := hw
  exact ⟨c, more, heq, hc⟩

theorem Pointed.head {m : List Char} (hm : Pointed digit? m) :
    ∃ c more, m = c :: more ∧ c ∈ ".0123456789".toList := by
  have hsub : '.' :: "0123456789".toList ⊆ ".0123456789".toList := by decide
  have hne : m ≠ [] := by
    cases hm with
    | whole _ hne => exact hne
    | point => simp
  obtain ⟨c, more, rfl⟩ := List.exists_cons_of_ne_nil hne
  exact ⟨c, more, rfl, hsub (hm.mem (fun _ => mem_of_digit?) List.mem_cons_self)⟩

theorem IsUnsigned.leads (hs : IsUnsigned s) : Leads s := by
  have hword : ∀ {word : String} {w : List Char} {l : Char} {ls : List Char} (more : List Char),
      IsWord word w → word.toList = l :: ls → l ∈ "in0".toList → Leads (w ++ more) := by
    intro word w l ls more hw hl hmem
    obtain ⟨c, t, rfl, rfl⟩ := hw.head hl
    exact leads_of_toLower hmem
  cases hs with
  | infinite word =>
    rw [← List.append_nil s]
    exact word.elim (hword [] · rfl (by decide)) (hword [] · rfl (by decide))
  | undefined word =>
    rw [← List.append_nil s]
    exact hword [] word rfl (by decide)
  | grouped word => exact hword _ word rfl (by decide)
  | hexadecimal mark => exact hword _ mark rfl (by decide)
  | decimal mantissa =>
    obtain ⟨c, more, rfl, hc⟩ := mantissa.head
    exact leads_of_mem hc

/-- A text with another first letter does not begin with the word. -/
theorem dropWord?_of_head {word : String} {l c : Char} {ls : List Char}
    (hword : word.toList = l :: ls) (hc : c.toLower ≠ l) : dropWord? word (c :: s) = none := by
  refine if_neg fun hw => ?_
  rw [hword] at hw
  have hlen : word.length = ls.length + 1 := by rw [← String.length_toList, hword]; rfl
  rw [hlen, List.take_succ_cons, List.map_cons] at hw
  exact hc (List.cons.inj hw).1

/-! ## Whole numerals -/

theorem Exponent.stops {e : List Char} (he : Exponent lower upper e)
    (value? : Char → Option Nat) (hlower : value? lower = none)
    (hupper : value? upper = none) (hdot : lower ≠ '.' ∧ upper ≠ '.') :
    Stops value? e ∧ e.head? ≠ some '.' := by
  cases he with
  | absent => exact ⟨stops_nil, nofun⟩
  | marked mark =>
    rcases mark with rfl | rfl
    · exact ⟨stops_cons hlower, fun h => hdot.1 (Option.some.inj h)⟩
    · exact ⟨stops_cons hupper, fun h => hdot.2 (Option.some.inj h)⟩

theorem decimal?_whole {m e : List Char} (hm : Pointed digit? m) (he : Exponent 'e' 'E' e) :
    ∃ x, decimal? (m ++ e) = some (x, []) := by
  obtain ⟨hstops, hpoint⟩ := he.stops digit? rfl rfl (by decide)
  obtain ⟨v, n, p, hread⟩ := hm.read 10 rfl hstops hpoint
  obtain ⟨x, hexp⟩ := he.read
  unfold decimal?
  simp only [hread, hexp]
  exact ⟨_, rfl⟩

theorem hexadecimal?_whole {m e : List Char} (hm : Pointed hexDigit? m)
    (he : Exponent 'p' 'P' e) : ∃ x, hexadecimal? (m ++ e) = some (x, []) := by
  obtain ⟨hstops, hpoint⟩ := he.stops hexDigit? rfl rfl (by decide)
  obtain ⟨v, n, p, hread⟩ := hm.read 16 rfl hstops hpoint
  obtain ⟨x, hexp⟩ := he.read
  unfold hexadecimal?
  simp only [hread, hexp]
  exact ⟨_, rfl⟩

theorem dropGroup_group {inside : List Char} (hall : ∀ c ∈ inside, isGroupChar c = true) :
    dropGroup ('(' :: (inside ++ [')'])) = [] := by
  unfold dropGroup
  simp only
  rw [List.dropWhile_append_of_pos hall]
  rfl

/-- **A numeral is read in full.** -/
theorem literal?_whole (hs : IsUnsigned s) : ∃ x, literal? s = some (x, []) := by
  unfold literal?
  cases hs with
  | infinite word =>
    rcases word with hw | hw
    · have hnot : dropWord? "infinity" s = none :=
        dropWord?_of_not_mem (c := 'y') (by decide) fun d hd he => by
          have hmem := hw.mem hd
          rw [he] at hmem
          exact absurd hmem (by decide)
      have hread := dropWord?_append hw []
      rw [List.append_nil] at hread
      exact ⟨.infinite, by rw [hnot, hread]⟩
    · have hread := dropWord?_append hw []
      rw [List.append_nil] at hread
      exact ⟨.infinite, by rw [hread]⟩
  | undefined word =>
    have hread := dropWord?_append word []
    rw [List.append_nil] at hread
    obtain ⟨c, more, rfl, hc⟩ := word.head rfl
    refine ⟨.undefined, ?_⟩
    rw [dropWord?_of_head rfl (by rw [hc]; decide), dropWord?_of_head rfl (by rw [hc]; decide),
      hread]
    rfl
  | @grouped w inside word group =>
    have hread := dropWord?_append word ('(' :: (inside ++ [')']))
    obtain ⟨c, more, rfl, hc⟩ := word.head rfl
    refine ⟨.undefined, ?_⟩
    rw [List.cons_append, dropWord?_of_head rfl (by rw [hc]; decide),
      dropWord?_of_head rfl (by rw [hc]; decide), ← List.cons_append, hread]
    exact congrArg (fun rest => some (Literal.undefined, rest)) (dropGroup_group group)
  | @hexadecimal w m e mark mantissa exponent =>
    have hread := dropWord?_append mark (m ++ e)
    obtain ⟨x, hwhole⟩ := hexadecimal?_whole mantissa exponent
    obtain ⟨c, more, rfl, hc⟩ := mark.head rfl
    refine ⟨x, ?_⟩
    rw [List.cons_append, dropWord?_of_head rfl (by rw [hc]; decide),
      dropWord?_of_head rfl (by rw [hc]; decide), dropWord?_of_head rfl (by rw [hc]; decide),
      ← List.cons_append, hread, Option.bind_some, hwhole]
  | @decimal m e mantissa exponent =>
    obtain ⟨x, hwhole⟩ := decimal?_whole mantissa exponent
    have hnot : dropWord? "0x" (m ++ e) = none :=
      dropWord?_of_not_mem (c := 'x') (by decide) fun d hd => by
        have hall : ∀ d ∈ ".0123456789eE+-".toList, d.toLower ≠ 'x' :=
          List.forall_iff_forall_mem.mp (by decide)
        exact hall d (decimal_mem mantissa exponent hd)
    obtain ⟨c, more, rfl, hc⟩ := mantissa.head
    have hall : ∀ d ∈ ".0123456789".toList, d.toLower ≠ 'i' ∧ d.toLower ≠ 'n' :=
      List.forall_iff_forall_mem.mp (by decide)
    obtain ⟨hi, hn⟩ := hall c hc
    refine ⟨x, ?_⟩
    rw [hnot, List.cons_append, dropWord?_of_head rfl hi, dropWord?_of_head rfl hi,
      dropWord?_of_head rfl hn, Option.bind_none]
    exact hwhole

theorem exists_group (s : List Char) : ∃ g, s = g ++ dropGroup s
    ∧ (g = [] ∨ ∃ inside, g = '(' :: (inside ++ [')']) ∧ ∀ c ∈ inside, isGroupChar c = true) := by
  unfold dropGroup
  split
  · next t =>
    split
    · next rest hdrop =>
      refine ⟨'(' :: (t.takeWhile isGroupChar ++ [')']), ?_, Or.inr ⟨_, rfl, fun c hc =>
        List.mem_takeWhile_imp hc⟩⟩
      rw [List.cons_append, List.append_assoc, List.singleton_append, ← hdrop,
        List.takeWhile_append_dropWhile]
    · exact ⟨[], rfl, Or.inl rfl⟩
  · exact ⟨[], rfl, Or.inl rfl⟩

theorem exists_of_decimal? {x : Literal} (h : decimal? s = some (x, rest)) :
    ∃ m e, s = m ++ (e ++ rest) ∧ Pointed digit? m ∧ Exponent 'e' 'E' e := by
  unfold decimal? at h
  split at h
  · cases h
  · next v n p t hne hread =>
    obtain ⟨k, rfl⟩ := Nat.exists_eq_succ_of_ne_zero hne
    obtain ⟨m, rfl, hm⟩ := exists_pointed rfl hread
    simp only [Option.some.injEq, Prod.mk.injEq] at h
    obtain ⟨e, ht, he⟩ := exists_exponent 'e' 'E' t
    rw [h.2] at ht
    exact ⟨m, e, by rw [← ht], hm, he⟩

theorem exists_of_hexadecimal? {x : Literal} (h : hexadecimal? s = some (x, rest)) :
    ∃ m e, s = m ++ (e ++ rest) ∧ Pointed hexDigit? m ∧ Exponent 'p' 'P' e := by
  unfold hexadecimal? at h
  split at h
  · cases h
  · next v n p t hne hread =>
    obtain ⟨k, rfl⟩ := Nat.exists_eq_succ_of_ne_zero hne
    obtain ⟨m, rfl, hm⟩ := exists_pointed rfl hread
    simp only [Option.some.injEq, Prod.mk.injEq] at h
    obtain ⟨e, ht, he⟩ := exists_exponent 'p' 'P' t
    rw [h.2] at ht
    exact ⟨m, e, by rw [← ht], hm, he⟩

/-- **What is read is a numeral.** -/
theorem exists_of_literal? {x : Literal} (h : literal? s = some (x, rest)) :
    ∃ t, s = t ++ rest ∧ IsUnsigned t := by
  unfold literal? at h
  split at h
  · next r hread =>
    cases h
    obtain ⟨w, rfl, hw⟩ := exists_word hread
    exact ⟨w, rfl, .infinite (Or.inr hw)⟩
  · split at h
    · next r hread =>
      cases h
      obtain ⟨w, rfl, hw⟩ := exists_word hread
      exact ⟨w, rfl, .infinite (Or.inl hw)⟩
    · split at h
      · next r hread =>
        cases h
        obtain ⟨w, rfl, hw⟩ := exists_word hread
        obtain ⟨g, hg, rfl | ⟨inside, rfl, hinside⟩⟩ := exists_group r
        · exact ⟨w, by rw [← List.nil_append (dropGroup r), ← hg], .undefined hw⟩
        · exact ⟨w ++ '(' :: (inside ++ [')']), by rw [List.append_assoc, ← hg],
            .grouped hw hinside⟩
      · split at h
        · next found hread =>
          cases h
          obtain ⟨r, hmark, hnumber⟩ := Option.bind_eq_some_iff.mp hread
          obtain ⟨w, rfl, hw⟩ := exists_word hmark
          obtain ⟨m, e, rfl, hm, he⟩ := exists_of_hexadecimal? hnumber
          exact ⟨w ++ (m ++ e), by simp only [List.append_assoc], .hexadecimal hw hm he⟩
        · obtain ⟨m, e, rfl, hm, he⟩ := exists_of_decimal? h
          exact ⟨m ++ e, (List.append_assoc ..).symm, .decimal hm he⟩

/-! ## Whole texts -/

theorem IsBinary64.not_mem_nul (hs : IsBinary64 s) : '\x00' ∉ s :=
  hs.not_mem rfl (by decide) fun _ => IsUnsigned.not_mem_nul

/-- A numeral is taken as a whole, unless its value is out of range. -/
theorem binary64_whole (hs : IsBinary64 s) (reader : String) :
    (∃ x, binary64 reader s = .ok (x, s.length)) ∨ binary64 reader s = .error (.outOfRange reader)
    := by
  have hnul := beforeNul_of_not_mem hs.not_mem_nul
  obtain ⟨front, body, negative, rfl, hbody, hsign⟩ := hs.front fun _ => IsUnsigned.leads
  obtain ⟨written, hread⟩ := literal?_whole hbody
  have hfront := hsign []
  rw [List.append_nil, List.append_nil] at hfront
  unfold binary64
  simp only [hnul, hfront, hread]
  rcases written.round? negative with _ | x
  · exact Or.inr rfl
  · exact Or.inl ⟨x, rfl⟩

/-- A text that is taken as a whole is a numeral. -/
theorem exists_of_binary64 {reader : String} {x : Binary64}
    (h : binary64 reader s = .ok (x, s.length)) : IsBinary64 s := by
  obtain ⟨tail, hs, -⟩ := exists_beforeNul s
  obtain ⟨blanks, sign, body, htext, hblanks, hsign, hbody⟩ := exists_front (Text.beforeNul s)
  unfold binary64 at h
  simp only [← hbody] at h
  split at h
  · cases h
  · next written rest hread =>
    split at h
    · cases h
    · obtain ⟨t, hsplit, ht⟩ := exists_of_literal? hread
      have htaken := congrArg Prod.snd (Except.ok.inj h)
      simp only at htaken
      -- All was taken, so nothing is left, neither of the text nor behind its first NUL byte.
      have hwhole := congrArg List.length hs
      have hparts := congrArg List.length htext
      rw [hsplit] at hparts
      simp only [List.length_append] at hwhole hparts
      have hrest : rest = [] := List.length_eq_zero_iff.mp (by omega)
      have htail : tail = [] := List.length_eq_zero_iff.mp (by omega)
      rw [hs, htail, List.append_nil, htext, hsplit, hrest, List.append_nil]
      exact .intro hblanks hsign ht

end Reading
end PageRegions
