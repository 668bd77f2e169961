import PageRegions.Proofs.Options.Listed
import PageRegions.Proofs.Options.Positions
import PageRegions.Proofs.Options.Slips

/-!
# Loops over the positions of a text

The pairs of an option text and the regions of a list are read in rounds: each reads an item at a
position, and the next one begins behind the delimiter that ended it. A loop is given a number of
rounds here and has no result if it needs more (`runRounds`), so that it can be said to end. It
does, since every round ends at its position or behind it (`Advances`): as many rounds as there are
positions left are enough (`exists_runRounds`), on malformed texts as on all others, and what they
read is what the text says (`nextFrom_progress`).
-/

set_option autoImplicit false

namespace PageRegions
namespace Token

open Text (isBlank trim)

variable {text : List Char} {delimiter : Char} {position length count : Nat} {α : Type}

/-! ## Rounds -/

/-- What rounds of a loop read, in their order, and the fault that ended the loop, if one did. -/
structure Run (α : Type) where
  items : List α
  fault? : Option Fault

def Run.cons (item : α) (run : Run α) : Run α := ⟨item :: run.items, run.fault?⟩

/-- A loop over the positions of a text, with at most so many rounds from a position on. A round
reads an item at its position, and the next one reads behind the delimiter at which the item ended.
`none`: these rounds are too few. -/
def runRounds (round : Nat → Except Fault (α × Option Nat)) (length : Nat) :
    Nat → Nat → Option (Run α)
  | 0, position => if position < length then none else some ⟨[], none⟩
  | count + 1, position =>
    if position < length then
      match round position with
      | .error fault => some ⟨[], some fault⟩
      | .ok (item, none) => some ⟨[item], none⟩
      | .ok (item, some stop) => (runRounds round length count (stop + 1)).map (·.cons item)
    else some ⟨[], none⟩

/-- Whether a round ends at its position or behind it, and inside the text. -/
def Advances (round : Nat → Except Fault (α × Option Nat)) (length : Nat) : Prop :=
  ∀ position item stop, round position = .ok (item, some stop) → position ≤ stop ∧ stop < length

/-- **As many rounds as there are positions left end a loop that advances**, and what holds of how
the loop ends, and of each round in front of others of which it holds, holds of the run. -/
theorem exists_runRounds {round : Nat → Except Fault (α × Option Nat)} (P : Nat → Run α → Prop)
    (hadvances : Advances round length)
    (hend : ∀ position, length ≤ position → P position ⟨[], none⟩)
    (hfault : ∀ position fault, position < length → round position = .error fault →
      P position ⟨[], some fault⟩)
    (hlast : ∀ position item, position < length → round position = .ok (item, none) →
      P position ⟨[item], none⟩)
    (hmore : ∀ position item stop run, position < length →
      round position = .ok (item, some stop) → P (stop + 1) run → P position (run.cons item))
    (hcount : length - position ≤ count) :
    ∃ run, runRounds round length count position = some run ∧ P position run := by
  induction count generalizing position with
  | zero =>
    have hdone : ¬ position < length := by omega
    exact ⟨_, if_neg hdone, hend _ (Nat.le_of_not_lt hdone)⟩
  | succ count ih =>
    by_cases hdone : position < length
    · rw [runRounds, if_pos hdone]
      rcases hround : round position with fault | ⟨item, _ | stop⟩
      · exact ⟨_, rfl, hfault _ _ hdone hround⟩
      · exact ⟨_, rfl, hlast _ _ hdone hround⟩
      · have hahead := hadvances _ _ _ hround
        have hleft : length - (stop + 1) ≤ count := by omega
        obtain ⟨run, hrun, hP⟩ := ih hleft
        exact ⟨run.cons item, congrArg (Option.map (·.cons item)) hrun,
          hmore _ _ _ _ hdone hround hP⟩
    · rw [runRounds, if_neg hdone]
      exact ⟨_, rfl, hend _ (Nat.le_of_not_lt hdone)⟩

/-! ## Tokens -/

/-- The rest of a text behind a token is the text behind the position where it ended. -/
theorem next_drop (delimiter : Char) (text : List Char) (position : Nat) :
    next delimiter (text.drop position) = (nextFrom delimiter text position).map
      fun (token, stop?) => ⟨token, restAt text stop?⟩ := by
  unfold nextFrom
  rcases hnext : next delimiter (text.drop position) with fault | ⟨token, _ | rest⟩
  · rfl
  · rfl
  · have hrest := (getElem?_of_drop (drop_stopOf (next_suffix hnext)).2).2
    simp only [Except.map, restAt, Option.map_some, hrest]

theorem stop_of_nextFrom {token : List Char} {stop : Nat} (hdelimiter : isBlank delimiter = false)
    (h : nextFrom delimiter text position = .ok (token, some stop)) :
    position ≤ stop ∧ stop < text.length := by
  obtain ⟨hle, hstop⟩ := ((nextFrom_iff hdelimiter).mp h).ends stop rfl
  exact ⟨hle, (List.getElem?_eq_some_iff.mp hstop).1⟩

/-! ## Pairs -/

/-- One round of the loop over the pairs of a text. -/
def pairRound (text : List Char) (position : Nat) : Except Fault ((String × String) × Option Nat) :=
  let key := (text.drop position).takeWhile fun c => !endsKey c
  match text[position + key.length]? with
  | none => .error .equalsExpected
  | some c =>
    if c ≠ '=' then .error .unexpectedCharInKey
    else if trim key = [] then .error .emptyKey
    else (nextFrom ';' text (position + key.length + 1)).map fun (token, stop?) =>
      ((String.ofList (trim key), String.ofList token), stop?)

/-- The loop that drops braces around a whole text, with at most so many rounds. -/
def unwrapWithin : Nat → List Char → Option (List Char)
  | 0, s => if 2 < s.length ∧ s.head? = some '\x7b' ∧ s.getLast? = some '\x7d' then none else some s
  | count + 1, s =>
    if 2 < s.length ∧ s.head? = some '\x7b' ∧ s.getLast? = some '\x7d' then
      unwrapWithin count (trim (s.drop 1).dropLast)
    else some s

/-- Reads the pairs of a text as `pairsOf` does, in loops of at most so many rounds. -/
def pairsWithin (count : Nat) (text : List Char) : Option Pairs :=
  (unwrapWithin count (trim text)).bind fun inner =>
    (runRounds (pairRound inner) inner.length count 0).map fun run => ⟨run.items, run.fault?⟩

theorem unwrapWithin_eq {s : List Char} (hcount : s.length ≤ count) :
    unwrapWithin count s = some (unwrap s) := by
  induction count generalizing s with
  | zero =>
    have hs : s = [] := List.eq_nil_of_length_eq_zero (Nat.le_zero.mp hcount)
    rw [hs, unwrap]
    rfl
  | succ count ih =>
    rw [unwrapWithin, unwrap]
    split
    · next hwrapped =>
      have hshorter := length_trim_le (s.drop 1).dropLast
      simp only [List.length_dropLast, List.length_drop] at hshorter
      exact ih (by omega)
    · rfl

theorem advances_pairRound (text : List Char) : Advances (pairRound text) text.length := by
  intro position pair stop h
  unfold pairRound at h
  simp only at h
  split at h
  · cases h
  · split_ifs at h
    rcases hnext : nextFrom ';' text (position
        + ((text.drop position).takeWhile fun c => !endsKey c).length + 1) with
      fault | ⟨token, stop?⟩
    · rw [hnext] at h
      cases h
    · rw [hnext] at h
      cases h
      obtain ⟨hle, hlt⟩ := stop_of_nextFrom (by decide) hnext
      exact ⟨by omega, hlt⟩

/-- Pairs are read round by round. -/
theorem readPairs_drop (hposition : position < text.length) :
    readPairs (text.drop position) = match pairRound text position with
      | .error fault => ⟨[], some fault⟩
      | .ok (pair, none) => ⟨[pair], none⟩
      | .ok (pair, some stop) =>
        ⟨pair :: (readPairs (text.drop (stop + 1))).pairs,
          (readPairs (text.drop (stop + 1))).fault?⟩ := by
  have hne : text.drop position ≠ [] := fun hnil =>
    absurd (List.drop_eq_nil_iff.mp hnil) (Nat.not_le.mpr hposition)
  have hdrop : ∀ word rest, text.drop position = word ++ rest →
      text.drop (position + word.length) = rest := by
    intro word rest hsplit
    rw [← List.drop_drop, hsplit, List.drop_left]
  have hat : ∀ word rest, text.drop position = word ++ rest →
      text[position + word.length]? = rest.head? := by
    intro word rest hsplit
    rw [← List.head?_drop, hdrop word rest hsplit]
  unfold pairRound
  rcases word_or_key (text.drop position) with hplain | ⟨word, d, body, hsplit, hplain, hd, hequals⟩
    | ⟨key, body, hsplit, hplain⟩
  · have hword : (text.drop position).takeWhile (fun c => !endsKey c) = text.drop position :=
      List.takeWhile_eq_self_iff.mpr fun c hc => by rw [hplain c hc]; rfl
    rw [readPairs_word hne hplain, hword]
    simp only [hat _ [] (List.append_nil _).symm, List.head?_nil]
  · rw [hsplit, readPairs_stray hplain hd hequals, takeWhile_key hplain hd]
    simp only [hat word _ hsplit, List.head?_cons, if_pos hequals]
  · rw [hsplit, takeWhile_key hplain (by decide)]
    simp only [hat key _ hsplit, List.head?_cons, ne_eq, not_true_eq_false, if_false]
    by_cases hkey : key = []
    · subst hkey
      exact readPairs_unnamed body
    · have hbody := (getElem?_of_drop (hdrop key _ hsplit)).2
      rw [readPairs_entry hplain (trim_ne_nil hkey), if_neg (trim_ne_nil hkey), ← hbody, next_drop]
      rcases nextFrom ';' text (position + key.length + 1) with fault | ⟨token, _ | stop⟩ <;> rfl

theorem runRounds_pairRound (hcount : text.length - position ≤ count) :
    ∃ run, runRounds (pairRound text) text.length count position = some run
      ∧ readPairs (text.drop position) = ⟨run.items, run.fault?⟩ := by
  refine exists_runRounds (fun position run => readPairs (text.drop position)
    = ⟨run.items, run.fault?⟩) (advances_pairRound text) ?_ ?_ ?_ ?_ hcount
  · intro position hend
    rw [List.drop_of_length_le hend, readPairs]
  · intro position fault hlt hround
    rw [readPairs_drop hlt, hround]
  · intro position pair hlt hround
    rw [readPairs_drop hlt, hround]
  · intro position pair stop run hlt hround hmore
    rw [readPairs_drop hlt, hround]
    simp only [hmore, Run.cons]

theorem length_unwrap_le (s : List Char) : (unwrap s).length ≤ s.length := by
  fun_induction unwrap s with
  | case1 s hwrapped ih =>
    have hshorter := length_trim_le (s.drop 1).dropLast
    simp only [List.length_dropLast, List.length_drop] at hshorter
    omega
  | case2 s => exact Nat.le_refl _

/-- **The loops over the pairs of a text** end with what it says. -/
theorem pairsWithin_eq (hcount : text.length ≤ count) :
    pairsWithin count text = some (pairsOf text) := by
  have htrim := (length_trim_le text).trans hcount
  have hinner : (unwrap (trim text)).length - 0 ≤ count := (length_unwrap_le _).trans htrim
  obtain ⟨run, hrun, hread⟩ := runRounds_pairRound hinner
  rw [pairsWithin, unwrapWithin_eq htrim, Option.bind_some, hrun, Option.map_some, ← hread]
  rfl

end Token

namespace RegionOptions

open Token

/-- One round of the loop over a list of regions: nothing is read of an empty token. -/
def regionRound (base : RegionOptions) (text : List Char) (position : Nat) :
    Except Fault (List RegionOptions × Option Nat) :=
  (nextFrom ':' text position).bind fun (token, stop?) =>
    (if token = [] then .ok [] else (base.ofText token).map ([·])).map fun read => (read, stop?)

/-- The outcome of a loop over a list: all that was read, unless a round was refused. -/
def outcome (run : Run (List RegionOptions)) : Except Fault (List RegionOptions) :=
  match run.fault? with
  | some fault => .error fault
  | none => .ok run.items.flatten

/-- Reads a list of regions as `listOfText` does, in a loop of at most so many rounds. -/
def listWithin (base : RegionOptions) (count : Nat) (text : List Char) :
    Option (Except Fault (List RegionOptions)) :=
  (runRounds (base.regionRound text) text.length count 0).map outcome

theorem advances_regionRound (base : RegionOptions) (text : List Char) :
    Advances (base.regionRound text) text.length := by
  intro position read stop h
  unfold regionRound at h
  rcases hnext : nextFrom ':' text position with fault | ⟨token, stop?⟩
  · rw [hnext] at h
    cases h
  · rw [hnext] at h
    simp only [Except.bind] at h
    cases hread : (if token = [] then Except.ok [] else (base.ofText token).map ([·])) with
    | error fault =>
      rw [hread] at h
      cases h
    | ok read =>
      rw [hread] at h
      cases h
      exact stop_of_nextFrom (by decide) hnext

/-- A list is read round by round. -/
theorem listOfText_drop (base : RegionOptions) (text : List Char) (position : Nat) :
    base.listOfText (text.drop position) = match base.regionRound text position with
      | .error fault => .error fault
      | .ok (read, none) => .ok read
      | .ok (read, some stop) => (base.listOfText (text.drop (stop + 1))).map (read ++ ·) := by
  rw [listOfText_next, next_drop, regionRound]
  rcases nextFrom ':' text position with fault | ⟨token, stop?⟩
  · rfl
  · by_cases htoken : token = []
    · subst htoken
      cases stop? <;> rfl
    · simp only [Except.bind, Except.map, if_neg htoken]
      cases base.ofText token with
      | error fault => rfl
      | ok region => cases stop? <;> rfl

/-- **The loop over a list of regions** ends with what the list says. -/
theorem listWithin_eq (base : RegionOptions) {count : Nat} {text : List Char}
    (hcount : text.length ≤ count) : base.listWithin count text = some (base.listOfText text) := by
  obtain ⟨run, hrun, hread⟩ : ∃ run,
      runRounds (base.regionRound text) text.length count 0 = some run
      ∧ base.listOfText (text.drop 0) = outcome run := by
    refine exists_runRounds (fun position run => base.listOfText (text.drop position) = outcome run)
      (base.advances_regionRound text) ?_ ?_ ?_ ?_ hcount
    · intro position hend
      rw [List.drop_of_length_le hend, listOfText]
      rfl
    · intro position fault hlt hround
      rw [listOfText_drop, hround]
      rfl
    · intro position read hlt hround
      rw [listOfText_drop, hround]
      simp only [outcome, List.flatten_cons, List.flatten_nil, List.append_nil]
    · intro position read stop run hlt hround hmore
      rw [listOfText_drop, hround]
      simp only [hmore, outcome, Run.cons]
      cases run.fault? <;> rfl
  rw [listWithin, hrun, Option.map_some, ← hread]
  rfl

end RegionOptions

namespace Token

/-- **Reading always gets on.** A token is read from a position of a text just if it stands there,
up to a delimiter or to the end of the text. Hence each round of the loops over pairs and over
regions goes on behind where it was, and these loops, and the one that drops braces, end on every
text after no more rounds than it has characters, with what the text says or the fault for which it
is refused. -/
theorem nextFrom_progress (delimiter : Char) (hdelimiter : Text.isBlank delimiter = false)
    (text : List Char) :
    (∀ position token stop?, nextFrom delimiter text position = .ok (token, stop?)
        ↔ TokenAt delimiter text position token stop?)
      ∧ Advances (pairRound text) text.length
      ∧ (∀ base : RegionOptions, Advances (base.regionRound text) text.length)
      ∧ ∀ count, text.length ≤ count → pairsWithin count text = some (pairsOf text)
        ∧ ∀ base : RegionOptions, base.listWithin count text = some (base.listOfText text) :=
  ⟨fun _ _ _ => nextFrom_iff hdelimiter, advances_pairRound text,
    fun base => base.advances_regionRound text,
    fun _ hcount => ⟨pairsWithin_eq hcount, fun base => base.listWithin_eq hcount⟩⟩

/-- A value with a semicolon in it, of a text that goes on. -/
theorem nextFrom_progress_braced :
    TokenAt ';' "a={ b;c } ; d=1".toList 2 "b;c".toList (some 10) :=
  ((nextFrom_progress ';' (by decide) "a={ b;c } ; d=1".toList).1 2 _ _).mp (by decide)

end Token
end PageRegions
