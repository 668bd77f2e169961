import Mathlib.Data.List.Induction
import Mathlib.Data.List.Infix
import Mathlib.Data.List.Nodup
import PageRegions.Options.Token

/-!
# Option texts that are written down

Pairs of keys and values are written as an option text (`textOf`), and reading it gives them back
(`pairsOf_textOf`): the values that stand in braces, whatever braces and semicolons they hold as
long as their braces match, and those that need none. Of several values for one key the last is
read.

Nothing is lost at the seams, and for this the text is taken from left to right: a key ends at the
equals sign behind it (`readPairs_key`), a value in braces at the brace that closes it
(`splitAtClose_append`, an induction over the value for any number of braces that are open before
it), and any other value at the next semicolon. Each of these lemmas leaves open what follows.
-/

set_option autoImplicit false

namespace PageRegions.Token

open Text (isBlank trim dropBlanksRight)

/-! ## What is written -/

/-- Whether a text neither begins nor ends with a blank. -/
structure Trimmed (s : List Char) : Prop where
  head : ∀ c, s.head? = some c → isBlank c = false
  last : ∀ c, s.getLast? = some c → isBlank c = false

/-- Whether the braces of a text match: nothing is closed that was not opened, and all that was
opened is closed. -/
structure Balanced (s : List Char) : Prop where
  opened : ∀ front, front <+: s → front.count '\x7d' ≤ front.count '\x7b'
  closed : s.count '\x7b' = s.count '\x7d'

-- The instances ask no more than the characters of the text, not all that there are.
instance (s : List Char) : Decidable (Trimmed s) :=
  decidable_of_iff (s.head?.all (!isBlank ·) = true ∧ s.getLast?.all (!isBlank ·) = true) <| by
    simp only [Option.all_eq_true, Bool.not_eq_true']
    exact ⟨fun h => ⟨h.1, h.2⟩, fun h => ⟨h.head, h.last⟩⟩

instance (s : List Char) : Decidable (Balanced s) :=
  decidable_of_iff ((∀ front ∈ s.inits, front.count '\x7d' ≤ front.count '\x7b')
      ∧ s.count '\x7b' = s.count '\x7d')
    ⟨fun h => ⟨fun front hfront => h.1 front ((List.mem_inits _ _).mpr hfront), h.2⟩,
      fun h => ⟨fun front hfront => h.opened front ((List.mem_inits _ _).mp hfront), h.closed⟩⟩

/-- A key and its value, as they are written. -/
structure Entry where
  key : String
  value : String
  /-- Whether braces stand around the value. -/
  braced : Bool
  deriving DecidableEq, Repr

namespace Entry

def pair (e : Entry) : String × String := (e.key, e.value)

def valueText (e : Entry) : List Char :=
  if e.braced then '\x7b' :: (e.value.toList ++ ['\x7d']) else e.value.toList

def text (e : Entry) : List Char := e.key.toList ++ '=' :: e.valueText

/-- The entries that can be read back. -/
structure Readable (e : Entry) : Prop where
  named : e.key ≠ ""
  plain : ∀ c ∈ e.key.toList, c ∉ ['=', '\x7b', '\x7d', ';']
  key : Trimmed e.key.toList
  value : Trimmed e.value.toList
  balanced : Balanced e.value.toList
  bare : e.braced = false →
    e.value ≠ "" ∧ e.value.toList.head? ≠ some '\x7b' ∧ ';' ∉ e.value.toList

instance (e : Entry) : Decidable e.Readable :=
  decidable_of_iff (e.key ≠ "" ∧ (e.key.toList.all (· ∉ ['=', '\x7b', '\x7d', ';'])) = true
      ∧ Trimmed e.key.toList ∧ Trimmed e.value.toList ∧ Balanced e.value.toList
      ∧ (e.braced = false →
        e.value ≠ "" ∧ e.value.toList.head? ≠ some '\x7b' ∧ ';' ∉ e.value.toList)) <| by
    simp only [List.all_eq_true, decide_eq_true_eq]
    exact ⟨fun ⟨named, plain, key, value, balanced, bare⟩ =>
        ⟨named, plain, key, value, balanced, bare⟩,
      fun h => ⟨h.named, h.plain, h.key, h.value, h.balanced, h.bare⟩⟩

end Entry

/-- The text of some entries, with semicolons between them. -/
def textOf : List Entry → List Char
  | [] => []
  | [e] => e.text
  | e :: next :: more => e.text ++ ';' :: textOf (next :: more)

/-! ## Blanks -/

theorem dropWhile_blank {s : List Char} (hs : ∀ c, s.head? = some c → isBlank c = false) :
    s.dropWhile isBlank = s := by
  cases s with
  | nil => rfl
  | cons c t => exact List.dropWhile_cons_of_neg (by rw [hs c rfl]; exact Bool.false_ne_true)

theorem trim_of_trimmed {s : List Char} (hs : Trimmed s) : trim s = s := by
  cases s with
  | nil => rfl
  | cons c t =>
    have hreverse : ((c :: t).reverse).dropWhile isBlank = (c :: t).reverse := by
      refine dropWhile_blank fun d hd => hs.last d ?_
      rwa [List.head?_reverse] at hd
    unfold trim
    rw [dropWhile_blank hs.head]
    exact (congrArg List.reverse hreverse).trans (List.reverse_reverse _)

/-! ## Values -/

theorem splitAtClose_open (depth : Nat) (t : List Char) :
    splitAtClose depth ('\x7b' :: t)
      = (splitAtClose (depth + 1) t).map fun (inside, rest) => ('\x7b' :: inside, rest) :=
  rfl

theorem splitAtClose_close (depth : Nat) (t : List Char) :
    splitAtClose (depth + 1) ('\x7d' :: t)
      = (splitAtClose depth t).map fun (inside, rest) => ('\x7d' :: inside, rest) :=
  rfl

theorem splitAtClose_other {depth : Nat} {c : Char} (hopen : c ≠ '\x7b') (hclose : c ≠ '\x7d')
    (t : List Char) :
    splitAtClose depth (c :: t)
      = (splitAtClose depth t).map fun (inside, rest) => (c :: inside, rest) :=
  (if_neg hopen).trans (if_neg hclose)

/-- Braces that match within a value are passed over, and so are those that close what was opened
before it. The next brace closes the value. -/
theorem splitAtClose_append {depth : Nat} {value tail : List Char}
    (hopened : ∀ front, front <+: value → front.count '\x7d' ≤ front.count '\x7b' + depth)
    (hclosed : value.count '\x7b' + depth = value.count '\x7d') :
    splitAtClose depth (value ++ '\x7d' :: tail) = some (value, tail) := by
  induction value generalizing depth with
  | nil =>
    have hzero : depth = 0 := by simpa using hclosed
    subst hzero
    rfl
  | cons c value ih =>
    have hmore : ∀ front, front <+: value →
        (c :: front).count '\x7d' ≤ (c :: front).count '\x7b' + depth :=
      fun front hfront => hopened (c :: front) (List.cons_prefix_cons.mpr ⟨rfl, hfront⟩)
    rw [List.cons_append]
    by_cases hopen : c = '\x7b'
    · subst hopen
      simp only [List.count_cons, beq_iff_eq, Char.reduceEq, if_true, if_false] at hmore hclosed
      rw [splitAtClose_open, ih (fun front hfront => by have := hmore front hfront; omega)
        (by omega)]
      rfl
    by_cases hclose : c = '\x7d'
    · subst hclose
      simp only [List.count_cons, beq_iff_eq, Char.reduceEq, if_true, if_false] at hmore hclosed
      have hdepth := hmore [] List.nil_prefix
      simp only [List.count_nil] at hdepth
      obtain ⟨outer, rfl⟩ : ∃ outer, depth = outer + 1 := ⟨depth - 1, by omega⟩
      rw [splitAtClose_close, ih (fun front hfront => by have := hmore front hfront; omega)
        (by omega)]
      rfl
    · simp only [List.count_cons, beq_iff_eq, hopen, hclose, if_false] at hmore hclosed
      rw [splitAtClose_other hopen hclose, ih hmore hclosed]
      rfl

theorem next_blanks_append {delimiter : Char} {blanks : List Char}
    (hblanks : ∀ c ∈ blanks, isBlank c = true) (s : List Char) :
    next delimiter (blanks ++ s) = next delimiter s := by
  unfold next
  rw [List.dropWhile_append_of_pos hblanks]

/-- **A token in braces** ends at the brace that closes it. -/
theorem next_in_braces {delimiter : Char} {left inside : List Char}
    (hleft : ∀ c ∈ left, isBlank c = true) (hinside : Balanced inside) (behind : List Char) :
    next delimiter (left ++ '\x7b' :: (inside ++ '\x7d' :: behind))
      = match behind.dropWhile isBlank with
        | [] => .ok ⟨trim inside, none⟩
        | d :: rest =>
          if d = delimiter then .ok ⟨trim inside, some rest⟩ else .error .textBehindBrace := by
  have hsplit : splitAtClose 0 (inside ++ '\x7d' :: behind) = some (inside, behind) :=
    splitAtClose_append hinside.opened hinside.closed
  rw [next_blanks_append hleft]
  unfold next
  rw [List.dropWhile_cons_of_neg (by decide)]
  cases hbehind : behind.dropWhile isBlank with
  | nil => simp only [if_true, hsplit, hbehind]
  | cons d rest => simp only [if_true, hsplit, hbehind]

/-- What follows a value in a text: nothing, or a delimiter and the rest. -/
def followedBy (delimiter : Char) : Option (List Char) → List Char
  | none => []
  | some rest => delimiter :: rest

/-- **A value in braces ends at the brace that closes it.** -/
theorem next_braced {delimiter : Char} (hdelimiter : isBlank delimiter = false) {value : List Char}
    (htrimmed : Trimmed value) (hbalanced : Balanced value) (rest? : Option (List Char)) :
    next delimiter ('\x7b' :: (value ++ ['\x7d']) ++ followedBy delimiter rest?)
      = .ok ⟨value, rest?⟩ := by
  have hbehind : (followedBy delimiter rest?).dropWhile isBlank = followedBy delimiter rest? := by
    refine dropWhile_blank fun c hc => ?_
    cases rest? with
    | none => cases hc
    | some rest =>
      cases hc
      exact hdelimiter
  rw [List.cons_append, List.append_assoc, List.singleton_append, ← List.nil_append ('\x7b' :: _),
    next_in_braces (List.forall_mem_nil _) hbalanced, hbehind, trim_of_trimmed htrimmed]
  cases rest? with
  | none => rfl
  | some rest => exact if_pos rfl

/-- **A value without braces ends at the next delimiter.** -/
theorem next_bare {delimiter : Char} {value : List Char} (htrimmed : Trimmed value)
    (hne : value ≠ []) (hbrace : value.head? ≠ some '\x7b') (hfree : delimiter ∉ value)
    (rest? : Option (List Char)) :
    next delimiter (value ++ followedBy delimiter rest?) = .ok ⟨value, rest?⟩ := by
  obtain ⟨c, t, rfl⟩ := List.exists_cons_of_ne_nil hne
  have hc : c ≠ '\x7b' := fun heq => hbrace (congrArg some heq)
  have hall : ∀ d ∈ c :: t, decide (d ≠ delimiter) = true := fun d hd =>
    decide_eq_true fun heq => hfree (heq ▸ hd)
  unfold next behind?
  rw [List.cons_append, List.dropWhile_cons_of_neg (by rw [htrimmed.head c rfl]; decide)]
  simp only [if_neg hc]
  rw [← List.cons_append, List.takeWhile_append_of_pos hall, List.dropWhile_append_of_pos hall]
  cases rest? with
  | none => simp [followedBy, trim_of_trimmed htrimmed]
  | some rest => simp [followedBy, trim_of_trimmed htrimmed]

/-- A token that cannot be read has a brace that is not matched, or text behind one that is. -/
theorem next_error {delimiter : Char} {s : List Char} {fault : Fault}
    (h : next delimiter s = .error fault) : fault = .unmatchedBrace ∨ fault = .textBehindBrace := by
  unfold next at h
  split at h
  · cases h
  · split at h
    · split at h
      · cases h
        exact Or.inl rfl
      · split at h
        · cases h
        · split at h
          · cases h
          · cases h
            exact Or.inr rfl
    · cases h

/-! ## Keys -/

/-- **A key ends at the equals sign behind it**, and what the reading goes on with is the text
behind its value. -/
theorem readPairs_entry {key body : List Char} (hplain : ∀ c ∈ key, endsKey c = false)
    (hkey : trim key ≠ []) :
    readPairs (key ++ '=' :: body)
      = match next ';' body with
        | .error fault => ⟨[], some fault⟩
        | .ok ⟨value, none⟩ => ⟨[(String.ofList (trim key), String.ofList value)], none⟩
        | .ok ⟨value, some rest⟩ =>
          ⟨(String.ofList (trim key), String.ofList value) :: (readPairs rest).pairs,
            (readPairs rest).fault?⟩ := by
  have hne : key ≠ [] := fun hnil => hkey (by rw [hnil]; rfl)
  obtain ⟨c, t, rfl⟩ := List.exists_cons_of_ne_nil hne
  have hall : ∀ d ∈ c :: t, (!endsKey d) = true := fun d hd => by rw [hplain d hd]; rfl
  have hdrop : (c :: (t ++ '=' :: body)).dropWhile (fun d => !endsKey d) = '=' :: body := by
    rw [← List.cons_append, List.dropWhile_append_of_pos hall]
    rfl
  have htake : (c :: (t ++ '=' :: body)).takeWhile (fun d => !endsKey d) = c :: t := by
    rw [← List.cons_append, List.takeWhile_append_of_pos hall]
    exact (congrArg _ (List.takeWhile_cons_of_neg (by decide))).trans (List.append_nil _)
  rw [List.cons_append, readPairs]
  split
  · next hnone =>
    rw [hdrop] at hnone
    cases hnone
  · next d behind hbehind =>
    rw [hdrop] at hbehind
    cases hbehind
    rw [if_neg (by decide), htake]
    simp only [hkey, if_false]
    split <;> simp_all

theorem readPairs_key {key body : List Char} (hne : key ≠ [])
    (hplain : ∀ c ∈ key, endsKey c = false) (htrimmed : Trimmed key) :
    readPairs (key ++ '=' :: body)
      = match next ';' body with
        | .error fault => ⟨[], some fault⟩
        | .ok ⟨value, none⟩ => ⟨[(String.ofList key, String.ofList value)], none⟩
        | .ok ⟨value, some rest⟩ =>
          ⟨(String.ofList key, String.ofList value) :: (readPairs rest).pairs,
            (readPairs rest).fault?⟩ := by
  have hkey : trim key ≠ [] := by rwa [trim_of_trimmed htrimmed]
  rw [readPairs_entry hplain hkey, trim_of_trimmed htrimmed]

/-! ## Texts -/

theorem textOf_cons (e : Entry) (more : List Entry) :
    textOf (e :: more)
      = e.text ++ followedBy ';' (if more = [] then none else some (textOf more)) := by
  cases more with
  | nil => exact (List.append_nil _).symm
  | cons next more => rfl

namespace Entry

theorem Readable.next {e : Entry} (he : e.Readable) (rest? : Option (List Char)) :
    next ';' (e.valueText ++ followedBy ';' rest?) = .ok ⟨e.value.toList, rest?⟩ := by
  unfold valueText
  cases hbraced : e.braced with
  | true => exact next_braced (by decide) he.value he.balanced rest?
  | false =>
    obtain ⟨hne, hbrace, hfree⟩ := he.bare hbraced
    exact next_bare he.value (fun hnil => hne (String.toList_eq_nil_iff.mp hnil)) hbrace hfree rest?

theorem Readable.endsKey {e : Entry} (he : e.Readable) :
    ∀ c ∈ e.key.toList, endsKey c = false := by
  intro c hc
  have hplain := he.plain c hc
  simp only [List.mem_cons, List.not_mem_nil, or_false, not_or] at hplain
  simp [Token.endsKey, hplain]

theorem Readable.readPairs {e : Entry} (he : e.Readable) (rest? : Option (List Char)) :
    readPairs (e.text ++ followedBy ';' rest?)
      = match rest? with
        | none => ⟨[e.pair], none⟩
        | some rest => ⟨e.pair :: (readPairs rest).pairs, (Token.readPairs rest).fault?⟩ := by
  have hkey : e.key.toList ≠ [] := fun hnil => he.named (String.toList_eq_nil_iff.mp hnil)
  unfold text
  rw [List.append_assoc, List.cons_append, readPairs_key hkey he.endsKey he.key, he.next rest?]
  cases rest? <;> simp only [String.ofList_toList] <;> rfl

/-- An entry begins with its key. -/
theorem Readable.head {e : Entry} (he : e.Readable) :
    ∃ c, e.text.head? = some c ∧ isBlank c = false ∧ c ≠ '\x7b' := by
  obtain ⟨c, t, hkey⟩ := List.exists_cons_of_ne_nil
    fun hnil => he.named (String.toList_eq_nil_iff.mp hnil)
  refine ⟨c, ?_, he.key.head c ?_, ?_⟩
  · rw [text, hkey]
    rfl
  · rw [hkey]
    rfl
  · rintro rfl
    exact he.plain '\x7b' (hkey ▸ List.mem_cons_self) (by decide)

/-- An entry ends with its value, or with the brace behind it. -/
theorem Readable.last {e : Entry} (he : e.Readable) {c : Char} (hc : e.text.getLast? = some c) :
    isBlank c = false := by
  rw [text, List.getLast?_append_of_ne_nil _ (List.cons_ne_nil _ _), valueText] at hc
  cases hbraced : e.braced with
  | true =>
    rw [if_pos hbraced, ← List.cons_append, ← List.cons_append, List.getLast?_concat] at hc
    cases hc
    decide
  | false =>
    have hvalue : e.value.toList ≠ [] := fun hnil =>
      (he.bare hbraced).1 (String.toList_eq_nil_iff.mp hnil)
    rw [if_neg (by rw [hbraced]; decide), List.getLast?_cons_of_ne_nil hvalue] at hc
    exact he.value.last c hc

end Entry

variable {entries : List Entry}

theorem textOf_head (hall : ∀ e ∈ entries, e.Readable) {c : Char}
    (hc : (textOf entries).head? = some c) : isBlank c = false ∧ c ≠ '\x7b' := by
  cases entries with
  | nil => cases hc
  | cons e more =>
    obtain ⟨d, hhead, hd⟩ := (hall e List.mem_cons_self).head
    rw [textOf_cons, List.head?_append, hhead] at hc
    cases hc
    exact hd

theorem textOf_ne_nil {e : Entry} {more : List Entry} : textOf (e :: more) ≠ [] := by
  rw [textOf_cons, Entry.text]
  simp

theorem textOf_last (hall : ∀ e ∈ entries, e.Readable) {c : Char}
    (hc : (textOf entries).getLast? = some c) : isBlank c = false := by
  induction entries with
  | nil => cases hc
  | cons e more ih =>
    obtain ⟨he, hmore⟩ := List.forall_mem_cons.mp hall
    rw [textOf_cons] at hc
    cases more with
    | nil =>
      rw [if_pos rfl, followedBy, List.append_nil] at hc
      exact he.last hc
    | cons next more =>
      rw [if_neg (List.cons_ne_nil _ _), followedBy,
        List.getLast?_append_of_ne_nil _ (List.cons_ne_nil _ _),
        List.getLast?_cons_of_ne_nil textOf_ne_nil] at hc
      exact ih hmore hc

theorem unwrap_of_head {s : List Char} (hs : s.head? ≠ some '\x7b') : unwrap s = s := by
  rw [unwrap]
  exact dif_neg fun h => hs h.2.1

/-- All entries are read, in the order in which they were written. -/
theorem readPairs_textOf (hall : ∀ e ∈ entries, e.Readable) :
    readPairs (textOf entries) = ⟨entries.map Entry.pair, none⟩ := by
  induction entries with
  | nil => rw [textOf, readPairs]; rfl
  | cons e more ih =>
    obtain ⟨he, hmore⟩ := List.forall_mem_cons.mp hall
    rw [textOf_cons, he.readPairs]
    split
    · next hnone =>
      split at hnone
      · next hnil =>
        subst hnil
        rfl
      · cases hnone
    · next rest hrest =>
      split at hrest
      · cases hrest
      · cases hrest
        rw [ih hmore]
        rfl

/-! ## Tables -/

/-- Whether a table binds the keys of some pairs, and each to the last value that is listed for
it. -/
structure Binds (table pairs : List (String × String)) : Prop where
  nodup : (table.map (·.1)).Nodup
  keys : ∀ key, key ∈ table.map (·.1) ↔ key ∈ pairs.map (·.1)
  last : ∀ key value, (key, value) ∈ table ↔ pairs.reverse.lookup key = some value

theorem keys_assign {table : List (String × String)} {key value k : String} :
    k ∈ (assign table key value).map (·.1) ↔ k = key ∨ k ∈ table.map (·.1) := by
  induction table with
  | nil => simp [assign]
  | cons first table ih =>
    obtain ⟨k', v'⟩ := first
    rw [assign]
    split
    · next heq =>
      subst heq
      simp
    · rw [List.map_cons, List.mem_cons, ih, List.map_cons, List.mem_cons]
      exact or_left_comm

theorem nodup_assign {table : List (String × String)} (hnodup : (table.map (·.1)).Nodup)
    (key value : String) : ((assign table key value).map (·.1)).Nodup := by
  induction table with
  | nil => exact List.nodup_singleton key
  | cons first table ih =>
    obtain ⟨k', v'⟩ := first
    obtain ⟨hnew, hrest⟩ := List.nodup_cons.mp hnodup
    rw [assign]
    split
    · exact List.nodup_cons.mpr ⟨hnew, hrest⟩
    · next hne =>
      refine List.nodup_cons.mpr ⟨fun hmem => ?_, ih hrest⟩
      rcases keys_assign.mp hmem with heq | hmem
      · exact hne heq
      · exact hnew hmem

theorem mem_assign {table : List (String × String)} (hnodup : (table.map (·.1)).Nodup)
    {key value k v : String} :
    (k, v) ∈ assign table key value ↔ if k = key then v = value else (k, v) ∈ table := by
  induction table with
  | nil => by_cases hk : k = key <;> simp [assign, hk]
  | cons first table ih =>
    obtain ⟨k', v'⟩ := first
    obtain ⟨hnew, hrest⟩ := List.nodup_cons.mp hnodup
    have hother : ∀ v, (k', v) ∉ table := fun v hmem => hnew (List.mem_map.mpr ⟨_, hmem, rfl⟩)
    rw [assign]
    by_cases heq : k' = key
    · subst heq
      rw [if_pos rfl, List.mem_cons, Prod.mk.injEq]
      by_cases hk : k = k'
      · subst hk
        simp [hother]
      · simp [hk]
    · rw [if_neg heq, List.mem_cons, ih hrest, Prod.mk.injEq]
      by_cases hk : k = key
      · subst hk
        simp [Ne.symm heq]
      · simp [hk]

/-- Assigning a key binds it and leaves the others alone. -/
theorem Binds.assign {table pairs : List (String × String)} (h : Binds table pairs)
    (key value : String) : Binds (assign table key value) (pairs ++ [(key, value)]) where
  nodup := nodup_assign h.nodup key value
  keys k := by
    rw [keys_assign, h.keys, List.map_append, List.mem_append, or_comm]
    simp
  last k v := by
    rw [mem_assign h.nodup, h.last, List.reverse_append, List.reverse_singleton,
      List.singleton_append, List.lookup_cons]
    by_cases hk : k = key
    · rw [if_pos hk, beq_iff_eq.mpr hk, Option.some.injEq, eq_comm]
    · rw [if_neg hk, beq_eq_false_iff_ne.mpr hk]

/-- **The table of some pairs binds their keys.** -/
theorem binds_tableOf (pairs : List (String × String)) : Binds (tableOf pairs) pairs := by
  induction pairs using List.reverseRecOn with
  | nil => exact ⟨List.nodup_nil, fun key => Iff.rfl, fun key value => by simp [tableOf]⟩
  | append_singleton pairs last ih =>
    have happend : tableOf (pairs ++ [last]) = assign (tableOf pairs) last.1 last.2 := by
      unfold tableOf
      rw [List.foldl_append]
      rfl
    rw [happend]
    exact ih.assign last.1 last.2

/-- **What was written is read back.** -/
theorem pairsOf_textOf (hall : ∀ e ∈ entries, e.Readable) :
    (pairsOf (textOf entries)).fault? = none
      ∧ Binds (tableOf (pairsOf (textOf entries)).pairs) (entries.map Entry.pair) := by
  have htrimmed : Trimmed (textOf entries) :=
    ⟨fun c hc => (textOf_head hall hc).1, fun c hc => textOf_last hall hc⟩
  have hpairs : pairsOf (textOf entries) = ⟨entries.map Entry.pair, none⟩ := by
    unfold pairsOf
    rw [trim_of_trimmed htrimmed, unwrap_of_head fun hc => (textOf_head hall hc).2 rfl,
      readPairs_textOf hall]
  rw [hpairs]
  exact ⟨rfl, binds_tableOf _⟩

/-- Entries with a list in braces, an empty value, and one key twice. -/
def someEntries : List Entry :=
  [⟨"list", "\x7ba=1;b\x7d:\x7bc\x7d", true⟩, ⟨"size", "4096", false⟩, ⟨"dir", "", true⟩,
    ⟨"size", "8 K\x7b\x7d", false⟩]

theorem pairsOf_textOf_some_entries :
    (∀ e ∈ someEntries, e.Readable)
      ∧ textOf someEntries
        = "list=\x7b\x7ba=1;b\x7d:\x7bc\x7d\x7d;size=4096;dir=\x7b\x7d;size=8 K\x7b\x7d".toList
      ∧ (pairsOf (textOf someEntries)).fault? = none
      ∧ Binds (tableOf (pairsOf (textOf someEntries)).pairs) (someEntries.map Entry.pair) := by
  have hall : ∀ e ∈ someEntries, e.Readable := by decide +kernel
  exact ⟨hall, by decide +kernel, pairsOf_textOf hall⟩

end PageRegions.Token
