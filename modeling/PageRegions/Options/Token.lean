import PageRegions.Fault

/-!
# Tokens of option texts

An option text is a list of `key=value` pairs behind which a semicolon may stand. A value runs to
the next semicolon, unless it begins with a brace: then it runs to the matching brace, and may hold
semicolons, equals signs and braced values of its own. Braces around a whole text are dropped.

Scanners take a text and return what is left of it. Each takes at least one character before it
lets another go on (`next_rest_length`), which is why the loops over tokens end.
-/

set_option autoImplicit false

namespace PageRegions.Token

open Text (isBlank trim)

/-- The text up to the brace that closes `depth` further ones and the one that was opened before
it, and the text behind that brace. -/
def splitAtClose : Nat → List Char → Option (List Char × List Char)
  | _, [] => none
  | depth, c :: t =>
    if c = '\x7b' then
      (splitAtClose (depth + 1) t).map fun (inside, rest) => (c :: inside, rest)
    else if c = '\x7d' then
      match depth with
      | 0 => some ([], t)
      | d + 1 => (splitAtClose d t).map fun (inside, rest) => (c :: inside, rest)
    else (splitAtClose depth t).map fun (inside, rest) => (c :: inside, rest)

theorem splitAtClose_eq_append {depth : Nat} {s inside rest : List Char}
    (h : splitAtClose depth s = some (inside, rest)) : s = inside ++ '\x7d' :: rest := by
  induction s generalizing depth inside with
  | nil => simp [splitAtClose] at h
  | cons c t ih =>
    unfold splitAtClose at h
    split at h
    · obtain ⟨⟨i, r⟩, hi, he⟩ := Option.map_eq_some_iff.1 h
      cases he
      simp [ih hi]
    · split at h
      · next hc =>
        split at h
        · cases h
          simp [hc]
        · obtain ⟨⟨i, r⟩, hi, he⟩ := Option.map_eq_some_iff.1 h
          cases he
          simp [ih hi]
      · obtain ⟨⟨i, r⟩, hi, he⟩ := Option.map_eq_some_iff.1 h
        cases he
        simp [ih hi]

/-- A token, and the text behind the delimiter that ended it: `none` if it was ended by the end of
the text. -/
structure Scan where
  token : List Char
  rest? : Option (List Char)
  deriving DecidableEq, Repr

/-- The text behind a delimiter, if the text holds one. -/
def behind? (delimiter : Char) (s : List Char) : Option (List Char) :=
  match s.dropWhile (· ≠ delimiter) with
  | [] => none
  | _ :: rest => some rest

/-- The next token of a text. Blanks in front are skipped. A token in braces is returned without
them, and only blanks may stand between it and the delimiter. -/
def next (delimiter : Char) (s : List Char) : Except Fault Scan :=
  match s.dropWhile isBlank with
  | [] => .ok ⟨[], none⟩
  | c :: t =>
    if c = '\x7b' then
      match splitAtClose 0 t with
      | none => .error .unmatchedBrace
      | some (inside, behind) =>
        match behind.dropWhile isBlank with
        | [] => .ok ⟨trim inside, none⟩
        | d :: rest =>
          if d = delimiter then .ok ⟨trim inside, some rest⟩ else .error .textBehindBrace
    else
      .ok ⟨trim ((c :: t).takeWhile (· ≠ delimiter)), behind? delimiter (c :: t)⟩

theorem length_dropWhile_le (p : Char → Bool) (s : List Char) :
    (s.dropWhile p).length ≤ s.length := by
  induction s with
  | nil => simp
  | cons c t ih =>
    simp only [List.dropWhile_cons]
    split
    · simp only [List.length_cons]
      omega
    · simp

theorem behind?_length {delimiter : Char} {s rest : List Char}
    (h : behind? delimiter s = some rest) : rest.length < s.length := by
  unfold behind? at h
  have hle := length_dropWhile_le (· ≠ delimiter) s
  split at h
  · cases h
  · next hs =>
    cases h
    rw [hs] at hle
    simp only [List.length_cons] at hle
    omega

/-- What is left behind a token is shorter than the text it was taken from. -/
theorem next_rest_length {delimiter : Char} {s token rest : List Char}
    (h : next delimiter s = .ok ⟨token, some rest⟩) : rest.length < s.length := by
  unfold next at h
  have hle := length_dropWhile_le isBlank s
  split at h
  · cases h
  · next c t hs =>
    rw [hs] at hle
    simp only [List.length_cons] at hle
    split at h
    · split at h
      · cases h
      · next inside behind hb =>
        have hlen := congrArg List.length (splitAtClose_eq_append hb)
        simp only [List.length_append, List.length_cons] at hlen
        have hle2 := length_dropWhile_le isBlank behind
        split at h
        · cases h
        · next d r hd =>
          rw [hd] at hle2
          simp only [List.length_cons] at hle2
          split at h
          · cases h
            omega
          · cases h
    · injection h with h
      injection h with _ h
      have := behind?_length h
      simp only [List.length_cons] at this
      omega

/-- The next token behind a position of a text, and the position of the delimiter that ended it, if
one did. -/
def nextFrom (delimiter : Char) (text : List Char) (position : Nat) :
    Except Fault (List Char × Option Nat) :=
  (next delimiter (text.drop position)).map fun scan =>
    (scan.token, scan.rest?.map fun rest => text.length - rest.length - 1)

/-! ## Pairs -/

theorem length_dropBlanksRight_le (s : List Char) : (Text.dropBlanksRight s).length ≤ s.length := by
  have h := length_dropWhile_le isBlank s.reverse
  simp only [Text.dropBlanksRight, List.length_reverse] at h ⊢
  exact h

theorem length_trim_le (s : List Char) : (trim s).length ≤ s.length := by
  have h := length_dropWhile_le isBlank s
  unfold trim
  split
  · cases s with
    | nil => simp
    | cons c t => simp [List.getLast?_cons]
  · next c t hs =>
    rw [hs] at h
    exact Nat.le_trans (length_dropBlanksRight_le _) h

/-- Drops braces around a whole text, and blanks around and inside them. A text of two braces alone
stays as it is. -/
def unwrap (s : List Char) : List Char :=
  if _ : 2 < s.length ∧ s.head? = some '\x7b' ∧ s.getLast? = some '\x7d' then
    unwrap (trim (s.drop 1).dropLast)
  else s
  termination_by s.length
  decreasing_by
    have h1 := length_trim_le (s.drop 1).dropLast
    simp only [List.length_dropLast, List.length_drop] at h1
    omega

def endsKey (c : Char) : Bool := c = '=' || c = '\x7b' || c = '\x7d' || c = ';'

/-- What an option text says: the pairs that were read, in their order, and the fault that ended
the reading, if one did. -/
structure Pairs where
  pairs : List (String × String)
  fault? : Option Fault
  deriving DecidableEq, Repr

/-- Reads pairs to the end of the text or the first fault. -/
def readPairs (s : List Char) : Pairs :=
  match s with
  | [] => ⟨[], none⟩
  | c :: t =>
    match _hk : (c :: t).dropWhile (fun d => !endsKey d) with
    | [] => ⟨[], some .equalsExpected⟩
    | d :: body =>
      if d ≠ '=' then ⟨[], some .unexpectedCharInKey⟩
      else
        let key := trim ((c :: t).takeWhile fun e => !endsKey e)
        if key = [] then ⟨[], some .emptyKey⟩
        else
          match _hn : next ';' body with
          | .error fault => ⟨[], some fault⟩
          | .ok ⟨token, none⟩ => ⟨[(String.ofList key, String.ofList token)], none⟩
          | .ok ⟨token, some rest⟩ =>
            let more := readPairs rest
            ⟨(String.ofList key, String.ofList token) :: more.pairs, more.fault?⟩
  termination_by s.length
  decreasing_by
    have h1 := length_dropWhile_le (fun d => !endsKey d) (c :: t)
    rw [_hk] at h1
    have h2 := next_rest_length _hn
    simp only [List.length_cons] at h1 ⊢
    omega

def pairsOf (text : List Char) : Pairs := readPairs (unwrap (trim text))

/-- Sets a key of a table: in place if it is there, otherwise behind all others. -/
def assign (table : List (String × String)) (key value : String) : List (String × String) :=
  match table with
  | [] => [(key, value)]
  | (k, v) :: rest =>
    if k = key then (k, value) :: rest else (k, v) :: assign rest key value

/-- The table that a list of pairs leaves: of several values for one key the last holds. -/
def tableOf (pairs : List (String × String)) : List (String × String) :=
  pairs.foldl (fun table (key, value) => assign table key value) []

end PageRegions.Token
