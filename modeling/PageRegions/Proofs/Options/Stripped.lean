import PageRegions.Proofs.Options.Blanks

/-!
# Option texts without their blanks

Trimming leaves one blank of a text that holds nothing else, and so a key or a value of blanks is not
the empty one. Here is what an option text would say if it were (`readStripped`): a reader that takes
the entries as they are taken, but leaves no blank of such a key or value, and that finds no entry in
blanks. It is put beside `readPairs` because it is indifferent to blanks in a way that `readPairs` is
not: blanks at either end of any text change nothing (`readStripped_blanks_append`,
`readStripped_append_blanks`), and what it reads bears none (`readStripped_clean`).

Entries are taken one at a time (`firstStripped`), so a change of a text is looked at in the entry
that it changes.
-/

set_option autoImplicit false

namespace PageRegions.Token

open Text (isBlank trim)

variable {s t blanks key body rest : List Char}

/-! ## Keys and values -/

/-- A text, unless it is blank. -/
def emptied (s : List Char) : List Char := if s.all isBlank then [] else s

theorem emptied_of_blank (hs : ∀ c ∈ s, isBlank c = true) : emptied s = [] :=
  if_pos (List.all_eq_true.mpr hs)

theorem emptied_of_solid (hs : ∃ c ∈ s, isBlank c = false) : emptied s = s := by
  obtain ⟨c, hc, hsolid⟩ := hs
  refine if_neg fun hall => ?_
  rw [List.all_eq_true.mp hall c hc] at hsolid
  cases hsolid

theorem solid_of_trimmed (hs : Trimmed s) (hne : s ≠ []) : ∃ c ∈ s, isBlank c = false := by
  obtain ⟨c, t, rfl⟩ := List.exists_cons_of_ne_nil hne
  exact ⟨c, List.mem_cons_self, hs.head c rfl⟩

theorem solid_trim (hs : ∃ c ∈ s, isBlank c = false) : ∃ c ∈ trim s, isBlank c = false := by
  obtain ⟨-, -, -, -, -, hne, htrimmed⟩ := exists_trim hs
  exact solid_of_trimmed htrimmed hne

/-- What is trimmed and not blank is left as it is. -/
theorem emptied_trim_eq_nil : emptied (trim s) = [] ↔ ∀ c ∈ s, isBlank c = true := by
  constructor
  · intro hnil
    rcases blank_or_solid s with hblank | hsolid
    · exact hblank
    · obtain ⟨c, hc, -⟩ := solid_trim hsolid
      rw [emptied_of_solid (solid_trim hsolid)] at hnil
      rw [hnil] at hc
      cases hc
  · exact fun hblank => emptied_of_blank (trim_of_blanks hblank)

theorem trimmed_emptied_trim (s : List Char) : Trimmed (emptied (trim s)) := by
  rcases blank_or_solid s with hblank | hsolid
  · rw [emptied_of_blank (trim_of_blanks hblank)]
    exact ⟨nofun, nofun⟩
  · obtain ⟨-, -, -, -, -, -, htrimmed⟩ := exists_trim hsolid
    rwa [emptied_of_solid (solid_trim hsolid)]

theorem emptied_trim_blanks_append (hblanks : ∀ c ∈ blanks, isBlank c = true) (s : List Char) :
    emptied (trim (blanks ++ s)) = emptied (trim s) := by
  rcases blank_or_solid s with hblank | ⟨c, hc, hsolid⟩
  · rw [emptied_trim_eq_nil.mpr hblank,
      emptied_trim_eq_nil.mpr (List.forall_mem_append.mpr ⟨hblanks, hblank⟩)]
  · rw [trim_blanks_append hblanks (List.ne_nil_of_mem hc)]

theorem emptied_trim_append_blanks (hblanks : ∀ c ∈ blanks, isBlank c = true) (s : List Char) :
    emptied (trim (s ++ blanks)) = emptied (trim s) := by
  rcases blank_or_solid s with hblank | hsolid
  · rw [emptied_trim_eq_nil.mpr hblank,
      emptied_trim_eq_nil.mpr (List.forall_mem_append.mpr ⟨hblank, hblanks⟩)]
  · rw [trim_append_blanks hblanks hsolid]

/-! ## The first entry -/

/-- An entry, and the text behind the semicolon that ended it, if one did. -/
structure FirstEntry where
  key : List Char
  value : List Char
  rest? : Option (List Char)
  deriving DecidableEq, Repr

def FirstEntry.pair (e : FirstEntry) : String × String := (String.ofList e.key, String.ofList e.value)

/-- An entry with blanks behind the text. -/
def FirstEntry.append (e : FirstEntry) (blanks : List Char) : FirstEntry :=
  { e with rest? := e.rest?.map (· ++ blanks) }

/-- The entry of a key, as far as its value can be read. -/
def entryOf (key body : List Char) : Except (Option Fault) FirstEntry :=
  if emptied (trim key) = [] then .error (some .emptyKey)
  else
    match next ';' body with
    | .error fault => .error (some fault)
    | .ok scan => .ok ⟨emptied (trim key), emptied scan.token, scan.rest?⟩

/-- The entry that a text begins with, or the fault that it has instead. There is neither in
blanks. -/
def firstStripped (s : List Char) : Except (Option Fault) FirstEntry :=
  if s.all isBlank then .error none
  else
    match s.dropWhile (fun c => !endsKey c) with
    | [] => .error (some .equalsExpected)
    | d :: body =>
      if d ≠ '=' then .error (some .unexpectedCharInKey)
      else entryOf (s.takeWhile fun c => !endsKey c) body

theorem firstStripped_of_blank (hs : ∀ c ∈ s, isBlank c = true) : firstStripped s = .error none :=
  if_pos (List.all_eq_true.mpr hs)

theorem takeWhile_key (hplain : ∀ c ∈ key, endsKey c = false) {d : Char} (hd : endsKey d = true)
    (body : List Char) : (key ++ d :: body).takeWhile (fun c => !endsKey c) = key := by
  have hall : ∀ c ∈ key, (!endsKey c) = true := fun c hc => by rw [hplain c hc]; rfl
  rw [List.takeWhile_append_of_pos hall,
    List.takeWhile_cons_of_neg (p := fun c => !endsKey c) (by rw [hd]; decide), List.append_nil]

theorem dropWhile_key (hplain : ∀ c ∈ key, endsKey c = false) {d : Char} (hd : endsKey d = true)
    (body : List Char) : (key ++ d :: body).dropWhile (fun c => !endsKey c) = d :: body := by
  have hall : ∀ c ∈ key, (!endsKey c) = true := fun c hc => by rw [hplain c hc]; rfl
  rw [List.dropWhile_append_of_pos hall,
    List.dropWhile_cons_of_neg (p := fun c => !endsKey c) (by rw [hd]; decide)]

/-- A key in front of what ends it. -/
theorem firstStripped_key (hkey : ∀ c ∈ key, endsKey c = false) {d : Char} (hd : endsKey d = true)
    (body : List Char) :
    firstStripped (key ++ d :: body)
      = if d ≠ '=' then .error (some .unexpectedCharInKey) else entryOf key body := by
  have hsolid : ¬ (key ++ d :: body).all isBlank = true := by
    intro hall
    have hblank := List.all_eq_true.mp hall d (List.mem_append_right _ List.mem_cons_self)
    rw [endsKey_of_isBlank hblank] at hd
    cases hd
  unfold firstStripped
  rw [if_neg hsolid, dropWhile_key hkey hd, takeWhile_key hkey hd]

theorem firstStripped_entry (hkey : ∀ c ∈ key, endsKey c = false) (body : List Char) :
    firstStripped (key ++ '=' :: body) = entryOf key body := by
  rw [firstStripped_key hkey rfl, if_neg (by decide)]

theorem next_of_entryOf {e : FirstEntry} (h : entryOf key body = .ok e) :
    ∃ scan, next ';' body = .ok scan ∧ e = ⟨emptied (trim key), emptied scan.token, scan.rest?⟩
      ∧ emptied (trim key) ≠ [] := by
  unfold entryOf at h
  split at h
  · cases h
  · next hne =>
    split at h
    · cases h
    · next scan hnext =>
      cases h
      exact ⟨scan, hnext, rfl, hne⟩

/-- A text that begins with an entry begins with its key. -/
theorem exists_key {e : FirstEntry} (h : firstStripped s = .ok e) :
    ∃ key body, s = key ++ '=' :: body ∧ (∀ c ∈ key, endsKey c = false)
      ∧ entryOf key body = .ok e := by
  unfold firstStripped at h
  split at h
  · cases h
  split at h
  · cases h
  · next d body hdrop =>
    split at h
    · cases h
    · next hequals =>
      obtain rfl : d = '=' := Decidable.not_not.mp hequals
      refine ⟨_, body, ?_, fun c hc => ?_, h⟩
      · rw [← hdrop, List.takeWhile_append_dropWhile]
      · simpa using List.mem_takeWhile_imp hc

theorem firstStripped_rest_length {e : FirstEntry} (h : firstStripped s = .ok e)
    (hrest : e.rest? = some rest) : rest.length < s.length := by
  obtain ⟨key, body, rfl, -, hentry⟩ := exists_key h
  obtain ⟨⟨token, rest?⟩, hnext, rfl, -⟩ := next_of_entryOf hentry
  cases hrest
  exact entry_rest_length key hnext

/-! ## All entries -/

/-- Reads the entries of a text to its end or the first fault. -/
def readStripped (s : List Char) : Pairs :=
  match _h : firstStripped s with
  | .error fault? => ⟨[], fault?⟩
  | .ok e =>
    match _hr : e.rest? with
    | none => ⟨[e.pair], none⟩
    | some rest =>
      let more := readStripped rest
      ⟨e.pair :: more.pairs, more.fault?⟩
  termination_by s.length
  decreasing_by exact firstStripped_rest_length _h _hr

/-- What an entry adds to what is read behind it. -/
def FirstEntry.onto (e : FirstEntry) : Pairs :=
  match e.rest? with
  | none => ⟨[e.pair], none⟩
  | some rest => ⟨e.pair :: (readStripped rest).pairs, (readStripped rest).fault?⟩

theorem readStripped_eq (s : List Char) :
    readStripped s = match firstStripped s with
      | .error fault? => ⟨[], fault?⟩
      | .ok e => e.onto := by
  rw [readStripped]
  split
  · next fault? h => rw [h]
  · next e h =>
    rw [h]
    simp only [FirstEntry.onto]
    split <;> simp_all

theorem readStripped_of_blank (hs : ∀ c ∈ s, isBlank c = true) : readStripped s = ⟨[], none⟩ := by
  rw [readStripped_eq, firstStripped_of_blank hs]

/-! ## Blanks at the ends -/

theorem firstStripped_blanks_append (hblanks : ∀ c ∈ blanks, isBlank c = true) (s : List Char) :
    firstStripped (blanks ++ s) = firstStripped s := by
  have hall : ∀ c ∈ blanks, (!endsKey c) = true := fun c hc => by
    rw [endsKey_of_isBlank (hblanks c hc)]
    rfl
  unfold firstStripped entryOf
  rw [List.all_append, List.all_eq_true.mpr hblanks, Bool.true_and,
    List.dropWhile_append_of_pos hall, List.takeWhile_append_of_pos hall,
    emptied_trim_blanks_append hblanks]

theorem firstStripped_append_blanks (hblanks : ∀ c ∈ blanks, isBlank c = true) (s : List Char) :
    firstStripped (s ++ blanks) = (firstStripped s).map (·.append blanks) := by
  rcases blank_or_solid s with hblank | ⟨c, hc, hsolid⟩
  · rw [firstStripped_of_blank hblank,
      firstStripped_of_blank (List.forall_mem_append.mpr ⟨hblank, hblanks⟩)]
    rfl
  have hsome : ∀ t : List Char, c ∈ t → ¬ t.all isBlank = true := by
    intro t ht hall
    rw [List.all_eq_true.mp hall c ht] at hsolid
    cases hsolid
  have hall : ∀ d ∈ blanks, (!endsKey d) = true := fun d hd => by
    rw [endsKey_of_isBlank (hblanks d hd)]
    rfl
  unfold firstStripped
  rw [if_neg (hsome _ (List.mem_append_left _ hc)), if_neg (hsome _ hc)]
  cases hdrop : s.dropWhile (fun c => !endsKey c) with
  | nil =>
    rw [List.dropWhile_append, hdrop, List.isEmpty_nil, if_pos rfl,
      List.dropWhile_eq_nil_iff.mpr hall]
    rfl
  | cons d body =>
    rw [dropWhile_append_of_cons hdrop, takeWhile_append_of_cons hdrop]
    simp only
    split
    · rfl
    unfold entryOf
    rw [next_append_blanks (by decide) hblanks]
    split
    · rfl
    cases next ';' body <;> rfl

/-- **Blanks in front of a text** say nothing. -/
theorem readStripped_blanks_append (hblanks : ∀ c ∈ blanks, isBlank c = true) (s : List Char) :
    readStripped (blanks ++ s) = readStripped s := by
  rw [readStripped_eq, firstStripped_blanks_append hblanks, ← readStripped_eq]

/-- **Nor do blanks behind it.** -/
theorem readStripped_append_blanks (hblanks : ∀ c ∈ blanks, isBlank c = true) (s : List Char) :
    readStripped (s ++ blanks) = readStripped s := by
  -- The induction is on the entries of the text.
  induction hlength : s.length using Nat.strong_induction_on generalizing s with
  | _ length ih =>
    rw [readStripped_eq, firstStripped_append_blanks hblanks, readStripped_eq s]
    cases hfirst : firstStripped s with
    | error fault? => rfl
    | ok e =>
      have hmore : ∀ rest, e.rest? = some rest → readStripped (rest ++ blanks) = readStripped rest :=
        fun rest hrest => ih rest.length (hlength ▸ firstStripped_rest_length hfirst hrest) rest rfl
      obtain ⟨key, value, _ | rest⟩ := e
      · rfl
      · simp only [Except.map, FirstEntry.onto, FirstEntry.append, FirstEntry.pair, Option.map_some,
          hmore rest rfl]

theorem readStripped_trim (s : List Char) : readStripped (trim s) = readStripped s := by
  rcases blank_or_solid s with hblank | hsolid
  · rw [readStripped_of_blank hblank, readStripped_of_blank (trim_of_blanks hblank)]
  · obtain ⟨left, right, hsplit, hleft, hright, -⟩ := exists_trim hsolid
    conv_rhs => rw [hsplit]
    rw [readStripped_blanks_append hleft, readStripped_append_blanks hright]

/-! ## What is read -/

/-- Whether a key and a value bear no blanks at their ends, and the key is one. -/
structure Clean (pair : String × String) : Prop where
  named : pair.1 ≠ ""
  key : Trimmed pair.1.toList
  value : Trimmed pair.2.toList

theorem FirstEntry.clean {e : FirstEntry} (h : firstStripped s = .ok e) : Clean e.pair := by
  obtain ⟨key, body, -, -, hentry⟩ := exists_key h
  obtain ⟨scan, hnext, rfl, hne⟩ := next_of_entryOf hentry
  obtain ⟨t, htoken⟩ := next_token hnext
  constructor
  · intro hempty
    refine hne ?_
    rw [← String.toList_ofList (l := emptied (trim key))]
    exact congrArg String.toList hempty
  · rw [FirstEntry.pair, String.toList_ofList]
    exact trimmed_emptied_trim key
  · rw [FirstEntry.pair, String.toList_ofList, htoken]
    exact trimmed_emptied_trim t

/-- **Neither keys nor values bear blanks.** -/
theorem readStripped_clean (s : List Char) : ∀ pair ∈ (readStripped s).pairs, Clean pair := by
  induction hlength : s.length using Nat.strong_induction_on generalizing s with
  | _ length ih =>
    rw [readStripped_eq]
    cases hfirst : firstStripped s with
    | error fault? => exact List.forall_mem_nil _
    | ok e =>
      have hclean := FirstEntry.clean hfirst
      simp only [FirstEntry.onto]
      cases hrest : e.rest? with
      | none => exact List.forall_mem_singleton.mpr hclean
      | some rest =>
        exact List.forall_mem_cons.mpr ⟨hclean,
          ih rest.length (hlength ▸ firstStripped_rest_length hfirst hrest) rest rfl⟩

end PageRegions.Token
