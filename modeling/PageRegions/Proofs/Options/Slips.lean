import PageRegions.Proofs.Options.Spacing

/-!
# Blanks that are taken for something

Trimming leaves the last character of a text that holds nothing but blanks. So a key of blanks is not
empty, a value of blanks in braces is a blank, and blanks alone are a text with a key that no equals
sign follows. A text slips (`Slips`) if it has such a key, such a value for a key that is not set
again, or nothing else.

These are all the texts whose blanks matter (`alike_strippedOf_iff`): unless a text slips, its faults
and its table are those of reading it without blanks, and if it slips one of them is not. Hence texts
that are the same but for blanks, if they do not slip, are read alike (`pairsOf_respaced`).
-/

set_option autoImplicit false

namespace PageRegions.Token

open Text (isBlank trim)

variable {s t key body rest token : List Char}

/-! ## The texts that slip -/

/-- Whether at some entry of a text, as far as it can be read, what begins there has a property. -/
inductive AtEntry (P : List Char → Prop) : List Char → Prop
  | first {s : List Char} (h : P s) : AtEntry P s
  | later {key body token rest : List Char} (plain : ∀ c ∈ key, endsKey c = false)
      (solid : ∃ c ∈ key, isBlank c = false) (hnext : next ';' body = .ok ⟨token, some rest⟩)
      (h : AtEntry P rest) : AtEntry P (key ++ '=' :: body)

/-- Whether the key that a text begins with consists of blanks. -/
structure BlankKey (s : List Char) : Prop where
  exists_key : ∃ key body, s = key ++ '=' :: body ∧ key ≠ [] ∧ ∀ c ∈ key, isBlank c = true

/-- Whether a value is in braces that have blanks in them and nothing else. -/
def BlankInside (body : List Char) : Prop :=
  ∃ gap inside behind, body = gap ++ '\x7b' :: (inside ++ '\x7d' :: behind)
    ∧ (∀ c ∈ gap, isBlank c = true) ∧ inside ≠ [] ∧ ∀ c ∈ inside, isBlank c = true

/-- Whether the first value of a text consists of blanks in braces, and its key is not set again. -/
structure BlankValue (s : List Char) : Prop where
  exists_entry : ∃ key body scan, s = key ++ '=' :: body ∧ (∀ c ∈ key, endsKey c = false)
    ∧ (∃ c ∈ key, isBlank c = false) ∧ BlankInside body ∧ next ';' body = .ok scan
    ∧ ∀ rest, scan.rest? = some rest →
      String.ofList (trim key) ∉ (readPairs rest).pairs.map Prod.fst

/-- Whether blanks of a text are taken for a key or a value. -/
inductive Slips (s : List Char) : Prop
  | blank (hne : unwrap (trim s) ≠ []) (hblank : ∀ c ∈ unwrap (trim s), isBlank c = true)
  | key (h : AtEntry BlankKey (unwrap (trim s)))
  | value (h : AtEntry BlankValue (unwrap (trim s)))

/-! ## Where a text begins -/

theorem trim_ne_nil (hs : s ≠ []) : trim s ≠ [] := by
  rcases blank_or_solid s with hblank | hsolid
  · rw [trim_of_forall_blank hblank, List.getLast?_eq_some_getLast hs]
    exact List.cons_ne_nil _ _
  · exact List.ne_nil_of_mem (solid_trim hsolid).choose_spec.1

/-- What a text can begin with: a word without an end, a word in front of a brace or a semicolon, or
a key. -/
theorem word_or_key (s : List Char) :
    (∀ c ∈ s, endsKey c = false)
      ∨ (∃ word d body, s = word ++ d :: body ∧ (∀ c ∈ word, endsKey c = false)
        ∧ endsKey d = true ∧ d ≠ '=')
      ∨ ∃ key body, s = key ++ '=' :: body ∧ ∀ c ∈ key, endsKey c = false := by
  have hplain : ∀ c ∈ s.takeWhile (fun c => !endsKey c), endsKey c = false := fun c hc => by
    simpa using List.mem_takeWhile_imp hc
  cases hdrop : s.dropWhile (fun c => !endsKey c) with
  | nil =>
    rw [← List.takeWhile_append_dropWhile (p := fun c => !endsKey c) (l := s), hdrop,
      List.append_nil]
    exact Or.inl hplain
  | cons d body =>
    have hd : endsKey d = true := by simpa using dropWhile_stops hdrop
    have hsplit : s = s.takeWhile (fun c => !endsKey c) ++ d :: body := by
      rw [← hdrop, List.takeWhile_append_dropWhile]
    by_cases hequals : d = '='
    · subst hequals
      exact Or.inr (Or.inr ⟨_, body, hsplit, hplain⟩)
    · exact Or.inr (Or.inl ⟨_, d, body, hsplit, hplain, hd, hequals⟩)

theorem readPairs_word (hs : s ≠ []) (hplain : ∀ c ∈ s, endsKey c = false) :
    readPairs s = ⟨[], some .equalsExpected⟩ := by
  obtain ⟨c, t, rfl⟩ := List.exists_cons_of_ne_nil hs
  have hdrop : (c :: t).dropWhile (fun d => !endsKey d) = [] :=
    List.dropWhile_eq_nil_iff.mpr fun d hd => by rw [hplain d hd]; rfl
  rw [readPairs]
  split
  · rfl
  · next hsome =>
    rw [hdrop] at hsome
    cases hsome

theorem readPairs_stray {word : List Char} (hplain : ∀ c ∈ word, endsKey c = false) {d : Char}
    (hd : endsKey d = true) (hequals : d ≠ '=') (body : List Char) :
    readPairs (word ++ d :: body) = ⟨[], some .unexpectedCharInKey⟩ := by
  have hdrop := dropWhile_key hplain hd body
  obtain ⟨c, t, heq⟩ := List.exists_cons_of_ne_nil
    (List.append_ne_nil_of_right_ne_nil word (List.cons_ne_nil d body))
  rw [heq] at hdrop ⊢
  rw [readPairs]
  split
  · next hnone =>
    rw [hdrop] at hnone
    cases hnone
  · next hsome =>
    rw [hdrop] at hsome
    cases hsome
    exact if_pos hequals

theorem readPairs_unnamed (body : List Char) : readPairs ('=' :: body) = ⟨[], some .emptyKey⟩ := by
  rw [readPairs]
  rfl

theorem solid_of_getLast? (hs : s ≠ []) (hlast : ∀ c, s.getLast? = some c → isBlank c = false) :
    ∃ c ∈ s, isBlank c = false :=
  ⟨s.getLast hs, List.getLast_mem hs, hlast _ (List.getLast?_eq_some_getLast hs)⟩

/-- Nothing is read of a text, with its blanks or without, for the same fault, or it begins with a
key. -/
theorem unread_or_keyed (s : List Char) :
    ((readPairs s).pairs = [] ∧ ((∀ c, s.getLast? = some c → isBlank c = false) →
        readStripped s = ⟨[], (readPairs s).fault?⟩))
      ∨ ∃ key body, s = key ++ '=' :: body ∧ (∀ c ∈ key, endsKey c = false) ∧ key ≠ [] := by
  rcases eq_or_ne s [] with rfl | hs
  · rw [readStripped_of_blank (List.forall_mem_nil _), readPairs]
    exact Or.inl ⟨rfl, fun _ => rfl⟩
  rcases word_or_key s with hplain | ⟨word, d, body, rfl, hplain, hd, hequals⟩
    | ⟨key, body, rfl, hplain⟩
  · rw [readPairs_word hs hplain]
    refine Or.inl ⟨rfl, fun hlast => ?_⟩
    obtain ⟨c, hc, hsolid⟩ := solid_of_getLast? hs hlast
    have hall : ¬ s.all isBlank = true := fun hall => by
      rw [List.all_eq_true.mp hall c hc] at hsolid
      cases hsolid
    have hdrop : s.dropWhile (fun c => !endsKey c) = [] :=
      List.dropWhile_eq_nil_iff.mpr fun d hd => by rw [hplain d hd]; rfl
    rw [readStripped_eq, firstStripped, if_neg hall, hdrop]
  · rw [readPairs_stray hplain hd hequals, readStripped_eq, firstStripped_key hplain hd,
      if_pos hequals]
    exact Or.inl ⟨rfl, fun _ => rfl⟩
  rcases eq_or_ne key [] with rfl | hkey
  · rw [List.nil_append, readPairs_unnamed, readStripped_eq, ← List.nil_append ('=' :: body),
      firstStripped_entry hplain]
    exact Or.inl ⟨rfl, fun _ => rfl⟩
  · exact Or.inr ⟨key, body, rfl, hplain, hkey⟩

/-- What is left behind an entry ends as the text does. -/
theorem getLast?_rest (hnext : next ';' body = .ok ⟨token, some rest⟩)
    (hlast : ∀ c, (key ++ '=' :: body).getLast? = some c → isBlank c = false) :
    ∀ c, rest.getLast? = some c → isBlank c = false := by
  intro c hc
  have hne : rest ≠ [] := by
    rintro rfl
    cases hc
  obtain ⟨front, hfront⟩ := next_suffix hnext
  refine hlast c ?_
  have hsplit : key ++ '=' :: body = key ++ '=' :: front ++ [';'] ++ rest := by
    rw [← hfront]
    simp
  rw [hsplit, List.getLast?_append_of_ne_nil _ hne, hc]

/-! ## Texts without keys of blanks -/

/-- A pair with nothing for a value of blanks. -/
def emptiedPair (pair : String × String) : String × String :=
  (pair.1, String.ofList (emptied pair.2.toList))

theorem emptiedPair_ofList (k v : List Char) :
    emptiedPair (String.ofList k, String.ofList v) = (String.ofList k, String.ofList (emptied v)) := by
  unfold emptiedPair
  rw [String.toList_ofList]

/-- **Unless a key consists of blanks**, the text says the same without blanks but for values that
consist of them. -/
theorem readStripped_of_keys (hlast : ∀ c, s.getLast? = some c → isBlank c = false)
    (hkeys : ¬ AtEntry BlankKey s) :
    readStripped s = ⟨(readPairs s).pairs.map emptiedPair, (readPairs s).fault?⟩ := by
  -- The induction is on the entries of the text.
  induction hlength : s.length using Nat.strong_induction_on generalizing s with
  | _ length ih =>
    rcases unread_or_keyed s with ⟨hpairs, hread⟩ | ⟨key, body, rfl, hplain, hkey⟩
    · rw [hread hlast, hpairs]
      rfl
    have hsolid : ∃ c ∈ key, isBlank c = false :=
      (blank_or_solid key).resolve_left fun hblank => hkeys (.first ⟨key, body, rfl, hkey, hblank⟩)
    have hname : emptied (trim key) = trim key := emptied_of_solid (solid_trim hsolid)
    rw [readPairs_entry hplain (trim_ne_nil hkey), readStripped_eq, firstStripped_entry hplain]
    unfold entryOf
    rw [hname, if_neg (trim_ne_nil hkey)]
    rcases hnext : next ';' body with fault | ⟨token, _ | rest⟩
    · rfl
    · simp only [FirstEntry.onto, FirstEntry.pair, List.map_cons, List.map_nil, emptiedPair_ofList]
    · have hshorter : rest.length < length := hlength ▸ entry_rest_length key hnext
      have hmore := ih rest.length hshorter (getLast?_rest hnext hlast)
        (fun h => hkeys (.later hplain hsolid hnext h)) rfl
      simp only [FirstEntry.onto, FirstEntry.pair, List.map_cons, emptiedPair_ofList, hmore]

/-! ## Texts with a key of blanks -/

/-- **A key of blanks** is empty without them; as the text is read, it is a key. -/
theorem AtEntry.blankKey (h : AtEntry BlankKey s) :
    (readStripped s).fault? = some .emptyKey
      ∧ ((readPairs s).fault? = some .emptyKey →
        ∃ pair ∈ (readPairs s).pairs, ∀ c ∈ pair.1.toList, isBlank c = true) := by
  induction h with
  | first h =>
    obtain ⟨key, body, rfl, hkey, hblank⟩ := h.exists_key
    have hplain : ∀ c ∈ key, endsKey c = false := fun c hc => endsKey_of_isBlank (hblank c hc)
    constructor
    · rw [readStripped_eq, firstStripped_entry hplain]
      unfold entryOf
      rw [if_pos (emptied_trim_eq_nil.mpr hblank)]
    · have hname : ∀ c ∈ (String.ofList (trim key)).toList, isBlank c = true := by
        rw [String.toList_ofList]
        exact trim_of_blanks hblank
      rw [readPairs_entry hplain (trim_ne_nil hkey)]
      rcases hnext : next ';' body with fault | ⟨token, _ | rest⟩
      · intro hfault
        obtain rfl : fault = .emptyKey := Option.some.inj hfault
        rcases next_error hnext with hbrace | hbrace <;> cases hbrace
      · exact fun _ => ⟨_, List.mem_cons_self, hname⟩
      · exact fun _ => ⟨_, List.mem_cons_self, hname⟩
  | @later key body token rest plain solid hnext _ ih =>
    have hkey : trim key ≠ [] := trim_ne_nil (List.ne_nil_of_mem solid.choose_spec.1)
    have hname : emptied (trim key) = trim key := emptied_of_solid (solid_trim solid)
    rw [readPairs_entry plain hkey, readStripped_eq, firstStripped_entry plain]
    unfold entryOf
    rw [hname, if_neg hkey, hnext]
    refine ⟨ih.1, fun hfault => ?_⟩
    obtain ⟨pair, hpair, hblank⟩ := ih.2 hfault
    exact ⟨pair, List.mem_cons_of_mem _ hpair, hblank⟩

/-! ## Values of blanks -/

theorem emptied_emptied (s : List Char) : emptied (emptied s) = emptied s := by
  by_cases hs : s.all isBlank = true
  · rw [show emptied s = [] from if_pos hs]
    rfl
  · rw [show emptied s = s from if_neg hs]
    exact if_neg hs

theorem emptiedPair_emptiedPair (pair : String × String) :
    emptiedPair (emptiedPair pair) = emptiedPair pair := by
  unfold emptiedPair
  rw [String.toList_ofList, emptied_emptied]

/-- A token of blanks is one in braces. -/
theorem next_emptied {scan : Scan} (h : next ';' body = .ok scan) :
    emptied scan.token ≠ scan.token ↔ BlankInside body := by
  have htrim : ∀ {s : List Char}, emptied (trim s) ≠ trim s → s ≠ [] ∧ ∀ c ∈ s, isBlank c = true := by
    intro s hs
    rcases blank_or_solid s with hblank | hsolid
    · refine ⟨?_, hblank⟩
      rintro rfl
      exact hs rfl
    · exact absurd (emptied_of_solid (solid_trim hsolid)) hs
  constructor
  · intro hne
    rcases next_ok h with rfl | ⟨gap, inside, behind, rfl, hgap, htoken, -⟩
      | ⟨gap, c, t, rfl, hsolid, rfl⟩
    · exact absurd rfl hne
    · rw [htoken] at hne
      exact ⟨gap, inside, behind, rfl, hgap, htrim hne⟩
    · -- A token without braces begins with something else than a blank, or is empty.
      obtain ⟨htoken, hblank⟩ := htrim hne
      by_cases hc : c = ';'
      · subst hc
        exact absurd (List.takeWhile_cons_of_neg (by decide)) htoken
      · have hfirst : c ∈ (c :: t).takeWhile (· ≠ ';') := by
          rw [List.takeWhile_cons_of_pos (p := (· ≠ ';')) (decide_eq_true hc)]
          exact List.mem_cons_self
        rw [hblank c hfirst] at hsolid
        cases hsolid
  · rintro ⟨gap, inside, behind, rfl, hgap, hinside, hblank⟩
    have htoken : scan.token = trim inside := by
      rw [next_in_braces hgap (.of_blanks hblank)] at h
      split at h
      · cases h
        rfl
      · split at h
        · cases h
          rfl
        · cases h
    rw [htoken, emptied_of_blank (trim_of_blanks hblank)]
    exact (trim_ne_nil hinside).symm

theorem emptiedPair_ne {k v : List Char} :
    emptiedPair (String.ofList k, String.ofList v) ≠ (String.ofList k, String.ofList v)
      ↔ emptied v ≠ v := by
  rw [emptiedPair_ofList, ne_eq, Prod.mk.injEq, and_iff_right rfl, String.ofList_inj]

/-! ## Tables -/

/-- A pair is in a table if it is there without the first pair, or it is that pair and nothing sets
its key again. -/
theorem mem_tableOf_cons {first pair : String × String} {more : List (String × String)} :
    pair ∈ tableOf (first :: more)
      ↔ pair ∈ tableOf more ∨ pair = first ∧ first.1 ∉ more.map Prod.fst := by
  obtain ⟨k, v⟩ := pair
  obtain ⟨k', v'⟩ := first
  rw [(binds_tableOf _).last, (binds_tableOf _).last, List.reverse_cons, List.lookup_append]
  have hmem : k ∈ more.map Prod.fst ↔ more.reverse.lookup k ≠ none := by
    rw [← (binds_tableOf more).keys]
    constructor
    · intro hkey
      obtain ⟨⟨_, w⟩, hpair, rfl⟩ := List.mem_map.mp hkey
      rw [((binds_tableOf more).last _ w).mp hpair]
      exact Option.some_ne_none w
    · intro hne
      obtain ⟨w, hw⟩ := Option.ne_none_iff_exists'.mp hne
      exact List.mem_map.mpr ⟨_, ((binds_tableOf more).last k w).mpr hw, rfl⟩
  by_cases hk : k = k'
  · subst hk
    cases hlookup : more.reverse.lookup k with
    | none => simp [hmem, hlookup, eq_comm]
    | some w => simp [hmem, hlookup]
  · have hbeq : (k == k') = false := beq_eq_false_iff_ne.mpr hk
    simp [List.lookup_cons, hbeq, hk]

theorem mem_of_mem_tableOf {pair : String × String} {pairs : List (String × String)}
    (h : pair ∈ tableOf pairs) : pair ∈ pairs := by
  induction pairs with
  | nil => exact h
  | cons first more ih =>
    rcases mem_tableOf_cons.mp h with hmore | ⟨rfl, -⟩
    · exact List.mem_cons_of_mem _ (ih hmore)
    · exact List.mem_cons_self

/-- Without the values of blanks a table is what it was without them. -/
theorem mem_tableOf_map_emptiedPair {pair : String × String} {pairs : List (String × String)} :
    pair ∈ tableOf (pairs.map emptiedPair) ↔ pair ∈ (tableOf pairs).map emptiedPair := by
  induction pairs with
  | nil => exact Iff.rfl
  | cons first more ih =>
    have hkeys : (more.map emptiedPair).map Prod.fst = more.map Prod.fst := by
      rw [List.map_map]
      rfl
    rw [List.map_cons, mem_tableOf_cons, hkeys, ih]
    simp only [List.mem_map, mem_tableOf_cons, or_and_right, exists_or]
    refine or_congr_right ⟨?_, ?_⟩
    · rintro ⟨hpair, hunset⟩
      exact ⟨first, ⟨rfl, hunset⟩, hpair.symm⟩
    · rintro ⟨_, ⟨rfl, hunset⟩, rfl⟩
      exact ⟨rfl, hunset⟩

/-- Whether two readings have the same fault, if any, and bind the same keys to the same values. -/
structure Alike (p q : Pairs) : Prop where
  fault : p.fault? = q.fault?
  table : ∀ pair, pair ∈ tableOf p.pairs ↔ pair ∈ tableOf q.pairs

theorem Alike.of_eq {p q : Pairs} (h : p = q) : Alike p q := h ▸ ⟨rfl, fun _ => Iff.rfl⟩

theorem Alike.symm {p q : Pairs} (h : Alike p q) : Alike q p :=
  ⟨h.fault.symm, fun pair => (h.table pair).symm⟩

theorem Alike.trans {p q r : Pairs} (h : Alike p q) (h' : Alike q r) : Alike p r :=
  ⟨h.fault.trans h'.fault, fun pair => (h.table pair).trans (h'.table pair)⟩

theorem alike_emptied {p : Pairs} :
    Alike p ⟨p.pairs.map emptiedPair, p.fault?⟩
      ↔ ∀ pair ∈ tableOf p.pairs, emptiedPair pair = pair := by
  constructor
  · intro halike pair hpair
    have hemptied := mem_tableOf_map_emptiedPair.mp ((halike.table pair).mp hpair)
    obtain ⟨pair', -, rfl⟩ := List.mem_map.mp hemptied
    exact emptiedPair_emptiedPair pair'
  · intro hall
    refine ⟨rfl, fun pair => ?_⟩
    rw [mem_tableOf_map_emptiedPair, List.map_congr_left hall, List.map_id']

theorem readPairs_scanned {scan : Scan} (hplain : ∀ c ∈ key, endsKey c = false) (hkey : key ≠ [])
    (hnext : next ';' body = .ok scan) :
    (readPairs (key ++ '=' :: body)).pairs
      = (String.ofList (trim key), String.ofList scan.token)
        :: scan.rest?.elim [] fun rest => (readPairs rest).pairs := by
  rw [readPairs_entry hplain (trim_ne_nil hkey), hnext]
  obtain ⟨token, _ | rest⟩ := scan <;> rfl

/-- **A value of blanks** comes out as one. -/
theorem AtEntry.blankValue (h : AtEntry BlankValue s) :
    ∃ pair ∈ tableOf (readPairs s).pairs, emptiedPair pair ≠ pair := by
  induction h with
  | first h =>
    obtain ⟨key, body, ⟨token, rest?⟩, rfl, hplain, ⟨c, hc, -⟩, hinside, hnext, hunset⟩ :=
      h.exists_entry
    refine ⟨(String.ofList (trim key), String.ofList token), ?_,
      emptiedPair_ne.mpr ((next_emptied hnext).mpr hinside)⟩
    rw [readPairs_scanned hplain (List.ne_nil_of_mem hc) hnext]
    refine mem_tableOf_cons.mpr (Or.inr ⟨rfl, ?_⟩)
    cases rest? with
    | none => exact List.not_mem_nil
    | some rest => exact hunset rest rfl
  | later plain solid hnext _ ih =>
    obtain ⟨c, hc, -⟩ := solid
    obtain ⟨pair, hpair, hne⟩ := ih
    rw [readPairs_scanned plain (List.ne_nil_of_mem hc) hnext]
    exact ⟨pair, mem_tableOf_cons.mpr (Or.inl hpair), hne⟩

/-- **A value that comes out as blanks** is one. -/
theorem atEntry_blankValue (hkeys : ¬ AtEntry BlankKey s)
    (h : ∃ pair ∈ tableOf (readPairs s).pairs, emptiedPair pair ≠ pair) : AtEntry BlankValue s := by
  -- The induction is on the entries of the text.
  induction hlength : s.length using Nat.strong_induction_on generalizing s with
  | _ length ih =>
    obtain ⟨pair, hpair, hne⟩ := h
    rcases unread_or_keyed s with ⟨hpairs, -⟩ | ⟨key, body, rfl, hplain, hkey⟩
    · rw [hpairs] at hpair
      cases hpair
    have hsolid : ∃ c ∈ key, isBlank c = false :=
      (blank_or_solid key).resolve_left fun hblank => hkeys (.first ⟨key, body, rfl, hkey, hblank⟩)
    rcases hnext : next ';' body with fault | ⟨token, rest?⟩
    · rw [readPairs_entry hplain (trim_ne_nil hkey), hnext] at hpair
      cases hpair
    · rw [readPairs_scanned hplain hkey hnext] at hpair
      rcases mem_tableOf_cons.mp hpair with hpair | ⟨rfl, hunset⟩
      · cases rest? with
        | none => cases hpair
        | some rest =>
          have hshorter : rest.length < length := hlength ▸ entry_rest_length key hnext
          exact .later hplain hsolid hnext (ih rest.length hshorter
            (fun h => hkeys (.later hplain hsolid hnext h)) ⟨pair, hpair, hne⟩ rfl)
      · have hinside := (next_emptied hnext).mp (emptiedPair_ne.mp hne)
        refine .first ⟨key, body, ⟨token, rest?⟩, rfl, hplain, hsolid, hinside, hnext, ?_⟩
        rintro rest rfl
        exact hunset

/-! ## Whole texts -/

theorem exists_trim_of_unwrap (s : List Char) : ∃ t, unwrap (trim s) = trim t := by
  induction hlength : (trim s).length using Nat.strong_induction_on generalizing s with
  | _ length ih =>
    rw [unwrap]
    split
    · have hle := length_trim_le ((trim s).drop 1).dropLast
      simp only [List.length_dropLast, List.length_drop] at hle
      exact ih _ (by omega) _ rfl
    · exact ⟨s, rfl⟩

/-- What is left of a whole text is a blank, or it does not end with one. -/
theorem blank_or_ended (s : List Char) :
    (unwrap (trim s) ≠ [] ∧ ∀ c ∈ unwrap (trim s), isBlank c = true)
      ∨ ∀ c, (unwrap (trim s)).getLast? = some c → isBlank c = false := by
  obtain ⟨t, ht⟩ := exists_trim_of_unwrap s
  rw [ht]
  rcases blank_or_solid t with hblank | hsolid
  · rcases eq_or_ne t [] with rfl | hne
    · exact Or.inr nofun
    · exact Or.inl ⟨trim_ne_nil hne, trim_of_blanks hblank⟩
  · obtain ⟨-, -, -, -, -, -, htrimmed⟩ := exists_trim hsolid
    exact Or.inr htrimmed.last

/-- A key of blanks shows, in the fault or in the table. -/
theorem not_alike_of_blankKey (h : AtEntry BlankKey s) : ¬ Alike (readPairs s) (readStripped s) := by
  intro halike
  obtain ⟨hfault, hkey⟩ := h.blankKey
  obtain ⟨⟨k, w⟩, hpair, hblank⟩ := hkey (halike.fault.trans hfault)
  obtain ⟨⟨_, v⟩, hbound, rfl⟩ := List.mem_map.mp
    (((binds_tableOf _).keys k).mpr (List.mem_map.mpr ⟨(k, w), hpair, rfl⟩))
  have hclean := readStripped_clean s _ (mem_of_mem_tableOf ((halike.table _).mp hbound))
  obtain ⟨c, hc, hsolid⟩ :=
    solid_of_trimmed hclean.key fun hnil => hclean.named (String.toList_eq_nil_iff.mp hnil)
  rw [hblank c hc] at hsolid
  cases hsolid

/-- **The texts that slip** are those whose blanks matter. -/
theorem alike_strippedOf_iff (s : List Char) : Alike (pairsOf s) (strippedOf s) ↔ ¬ Slips s := by
  unfold pairsOf strippedOf
  rcases blank_or_ended s with ⟨hne, hblank⟩ | hlast
  · refine iff_of_false (fun halike => ?_) fun hslips => hslips (.blank hne hblank)
    have hfault := halike.fault
    rw [readPairs_word hne fun c hc => endsKey_of_isBlank (hblank c hc),
      readStripped_of_blank hblank] at hfault
    cases hfault
  by_cases hkeys : AtEntry BlankKey (unwrap (trim s))
  · exact iff_of_false (not_alike_of_blankKey hkeys) fun hslips => hslips (.key hkeys)
  rw [readStripped_of_keys hlast hkeys, alike_emptied]
  constructor
  · rintro hall (⟨hne, hblank⟩ | hkey | hvalue)
    · obtain ⟨c, hc, hsolid⟩ := solid_of_getLast? hne hlast
      rw [hblank c hc] at hsolid
      cases hsolid
    · exact hkeys hkey
    · obtain ⟨pair, hpair, hne⟩ := hvalue.blankValue
      exact hne (hall pair hpair)
  · intro hslips pair hpair
    by_contra hne
    exact hslips (.value (atEntry_blankValue hkeys ⟨pair, hpair, hne⟩))

/-- **Blanks without a meaning.** Two texts that are the same but for blanks around their keys and
values, or at their ends, are read alike, unless one of them slips; if just one slips they are not. Of
a text that does not slip neither keys nor values bear blanks. -/
theorem pairsOf_respaced (h : Respaced s t) (ht : ¬ Slips t) :
    (Alike (pairsOf s) (pairsOf t) ↔ ¬ Slips s) ∧ ∀ pair ∈ tableOf (pairsOf t).pairs, Clean pair := by
  have hread : Alike (strippedOf s) (pairsOf t) :=
    (Alike.of_eq h.read).trans ((alike_strippedOf_iff t).mpr ht).symm
  constructor
  · rw [← alike_strippedOf_iff]
    exact ⟨fun halike => halike.trans hread.symm, fun halike => halike.trans hread⟩
  · intro pair hpair
    exact readStripped_clean _ pair (mem_of_mem_tableOf
      ((((alike_strippedOf_iff t).mpr ht).table pair).mp hpair))

theorem not_slips_of_eq (h : pairsOf s = strippedOf s) : ¬ Slips s :=
  (alike_strippedOf_iff s).mp (.of_eq h)

/-- A blank in braces, and one in front of a key. -/
theorem pairsOf_respaced_two_blanks :
    Respaced "a=\x7b 1\x7d;b=2".toList "a=\x7b1\x7d; b=2".toList
      ∧ Alike (pairsOf "a=\x7b 1\x7d;b=2".toList) (pairsOf "a=\x7b1\x7d; b=2".toList) := by
  have hplain : ∀ c ∈ ['a'], endsKey c = false := List.forall_mem_singleton.mpr rfl
  have hnone : ∀ c ∈ ([] : List Char), isBlank c = true := List.forall_mem_nil _
  have hbalanced : Balanced ['1'] := by decide
  have hinside : EntrySpaced ' ' "a=\x7b1\x7d;b=2".toList "a=\x7b 1\x7d;b=2".toList :=
    .afterOpen hplain hnone hbalanced ";b=2".toList
  have hpiece : Piece "a=\x7b1\x7d".toList := .braced hplain hnone hbalanced List.not_mem_nil
  have hkey : Spaced "a=\x7b1\x7d;b=2".toList "a=\x7b1\x7d; b=2".toList :=
    .atEntry rfl (.piece hpiece .nil) (by decide) (.beforeKey "b=2".toList)
  have h : Respaced "a=\x7b 1\x7d;b=2".toList "a=\x7b1\x7d; b=2".toList :=
    .trans _ _ _ (.symm _ _ (.rel _ _ (.atEntry rfl .nil (by decide) hinside))) (.rel _ _ hkey)
  exact ⟨h, (pairsOf_respaced h (not_slips_of_eq (by decide +kernel))).1.mpr
    (not_slips_of_eq (by decide +kernel))⟩

/-- **A blank that is taken for something**: for a value in braces, for a key, and for a text. -/
theorem respaced_not_alike :
    (Respaced "a=\x7b\x7d".toList "a=\x7b \x7d".toList
        ∧ ¬ Alike (pairsOf "a=\x7b\x7d".toList) (pairsOf "a=\x7b \x7d".toList))
      ∧ (Respaced "a=1;=2".toList "a=1; =2".toList
        ∧ ¬ Alike (pairsOf "a=1;=2".toList) (pairsOf "a=1; =2".toList))
      ∧ (Respaced "".toList " ".toList ∧ ¬ Alike (pairsOf "".toList) (pairsOf " ".toList)) := by
  have hplain : ∀ c ∈ ['a'], endsKey c = false := List.forall_mem_singleton.mpr rfl
  have hnone : ∀ c ∈ ([] : List Char), isBlank c = true := List.forall_mem_nil _
  have hvalue : EntrySpaced ' ' "a=\x7b\x7d".toList "a=\x7b \x7d".toList :=
    .afterOpen hplain hnone (.of_blanks hnone) []
  have hpiece : Piece "a=1".toList :=
    .bare hplain (show Unbraced ['1'] by decide) (by decide)
  have hkey : Spaced "a=1;=2".toList "a=1; =2".toList :=
    .atEntry rfl (.piece hpiece .nil) (by decide) (.beforeKey "=2".toList)
  refine ⟨⟨.rel _ _ (.atEntry rfl .nil (by decide) hvalue), fun halike => ?_⟩,
    ⟨.rel _ _ hkey, fun halike => ?_⟩, .rel _ _ (.atStart rfl []), fun halike => ?_⟩
  · exact absurd ((halike.table ("a", "")).mp (by decide +kernel)) (by decide +kernel)
  · exact absurd halike.fault (by decide +kernel)
  · exact absurd halike.fault (by decide +kernel)

end PageRegions.Token
