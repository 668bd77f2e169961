import PageRegions.Proofs.Number.Quantities
import PageRegions.Proofs.Options.Keyed
import PageRegions.Proofs.Options.Written

/-!
# Numbers in option texts

Which values are accepted for settings that are numbers. For unsigned and for floating-point
settings these are the numbers of their kind, from the first character to the last. For the signed
ones they are those and more: a signed 32-bit setting may have anything behind its suffix, a signed
64-bit setting anything behind its number, and neither makes a difference (`Trails`).

Whatever is refused is refused as an invalid argument, be it a number, a name, a key or a brace that
is at fault.
-/

set_option autoImplicit false

namespace PageRegions

open Reading (IsInteger IsBinary64 Stops digit?)
open Quantity (IsQuantity IsSuffixed)

/-! ## What is refused -/

theorem eq_error_of_map {α β : Type} {r : Except Fault α} {f : α → β} {fault : Fault}
    (h : r.map f = .error fault) : r = .error fault := by
  cases r with
  | error => exact congrArg Except.error (Except.error.inj h)
  | ok => cases h

namespace OptionValue

theorem ofNumber_error {α : Type} {option : String} {r : Except NumberFault α} {fault : Fault}
    (h : ofNumber option r = .error fault) :
    ∃ cause, r = .error cause ∧ fault = .malformedValue option cause := by
  cases r with
  | error cause => exact ⟨cause, rfl, (Except.error.inj h).symm⟩
  | ok => cases h

theorem ofNumber_ok {α : Type} {option : String} {r : Except NumberFault α} {a : α}
    (h : ofNumber option r = .ok a) : r = .ok a := by
  cases r with
  | error => cases h
  | ok => exact congrArg Except.ok (Except.ok.inj h)

/-- A reader that finds nothing but the range at fault. -/
theorem map_ofNumber {α β : Type} {option : String} {r : Except NumberFault α} (f : α → β)
    (h : (∃ a, r = .ok a) ∨ ∃ subject, r = .error (.outOfRange subject)) :
    (∃ b, (ofNumber option r).map f = .ok b) ∨ ∃ subject,
      (ofNumber option r).map f = .error (.malformedValue option (.outOfRange subject)) := by
  rcases h with ⟨a, rfl⟩ | ⟨subject, rfl⟩
  · exact Or.inl ⟨f a, rfl⟩
  · exact Or.inr ⟨subject, rfl⟩

theorem ofNamed_error {α : Type} {option : String} {found : Option α} {fault : Fault}
    (h : ofNamed option found = .error fault) : fault = .unknownValue option := by
  cases found with
  | none => exact (Except.error.inj h).symm
  | some => cases h

end OptionValue

namespace OptionKind

/-- Whether values of a kind are numbers. -/
def isNumeric : OptionKind → Bool
  | .signed32 | .signed64 | .unsigned32 | .unsigned64 | .binary64 => true
  | _ => false

variable {fresh : RegionOptions} {kind : OptionKind} {option text : String} {fault : Fault}

theorem read_numeric_error (hkind : kind.isNumeric = true)
    (h : kind.read fresh option text = .error fault) :
    ∃ cause, fault = .malformedValue option cause := by
  cases kind <;> cases hkind
  all_goals
    obtain ⟨cause, -, hfault⟩ := OptionValue.ofNumber_error (eq_error_of_map h)
    exact ⟨cause, hfault⟩

theorem read_error_kind (hkind : kind ≠ .regions) (h : kind.read fresh option text = .error fault) :
    fault.kind = .invalidArgument := by
  by_cases hnumeric : kind.isNumeric = true
  · obtain ⟨cause, rfl⟩ := read_numeric_error hnumeric h
    rfl
  · cases kind with
    | signed32 | signed64 | unsigned32 | unsigned64 | binary64 => exact absurd rfl hnumeric
    | regions => exact absurd rfl hkind
    | string => cases h
    | unknown =>
      cases h
      rfl
    | boolean =>
      obtain ⟨cause, -, rfl⟩ := OptionValue.ofNumber_error (eq_error_of_map h)
      rfl
    | mode | logLevel =>
      rw [OptionValue.ofNamed_error (eq_error_of_map h)]
      rfl

end OptionKind

namespace Token

theorem next_error_kind {delimiter : Char} {s : List Char} {fault : Fault}
    (h : next delimiter s = .error fault) : fault.kind = .invalidArgument := by
  rcases next_error h with rfl | rfl <;> rfl

theorem readPairs_fault_kind {s : List Char} {fault : Fault}
    (h : (readPairs s).fault? = some fault) : fault.kind = .invalidArgument := by
  fun_induction readPairs s with
  | case1 => cases h
  | case2 | case3 | case4 =>
    cases h
    rfl
  | case5 _ _ _ _ _ _ _ _ _ hnext =>
    rw [← Option.some.inj h]
    exact next_error_kind hnext
  | case6 => cases h
  | case7 _ _ _ _ _ _ _ _ _ _ _ _ ih => exact ih h

end Token

namespace RegionOptions

variable {fresh base : RegionOptions} {fault : Fault}

theorem read_error_kind {key text : String} (h : read fresh key text = .error fault) :
    fault.kind = .invalidArgument := by
  unfold read at h
  split at h
  · cases h
    rfl
  · next kind hkind =>
    refine OptionKind.read_error_kind ?_ h
    rintro rfl
    unfold kindOf? at hkind
    split at hkind <;> cases hkind

theorem ofTable_error_kind {table : List (String × String)}
    (h : base.ofTable table = .error fault) : fault.kind = .invalidArgument := by
  rw [ofTable_eq base] at h
  obtain ⟨e, -, he⟩ := (keyed base).exists_of_error h
  exact read_error_kind he

theorem ofText_error_kind {text : List Char} (h : base.ofText text = .error fault) :
    fault.kind = .invalidArgument := by
  unfold ofText at h
  split at h
  · next pairs fault' hpairs =>
    cases h
    exact Token.readPairs_fault_kind (congrArg Token.Pairs.fault? hpairs)
  · exact ofTable_error_kind h

theorem listOfText_error_kind {text : List Char} (h : base.listOfText text = .error fault) :
    fault.kind = .invalidArgument := by
  fun_induction base.listOfText text with
  | case1 => cases h
  | case2 _ _ _ hnext =>
    rw [← Except.error.inj h]
    exact Token.next_error_kind hnext
  | case3 _ _ token _ _ _ hread =>
    split at hread
    · cases hread
    · rw [← Except.error.inj h]
      exact ofText_error_kind (eq_error_of_map hread)
  | case4 => cases h
  | case5 _ _ _ _ _ _ _ _ ih => exact ih (eq_error_of_map h)

end RegionOptions

namespace MemoryOptions

variable {fresh : RegionOptions} {fault : Fault}

theorem read_error_kind {key text : String}
    (h : read fresh.listOfText fresh key text = .error fault) : fault.kind = .invalidArgument := by
  unfold read at h
  split at h
  · cases h
    rfl
  · exact RegionOptions.listOfText_error_kind (eq_error_of_map h)
  · next kind hkind _ => exact OptionKind.read_error_kind hkind h

end MemoryOptions

/-! ## What is accepted -/

namespace OptionKind

variable {fresh : RegionOptions} {kind : OptionKind} {option text : String} {s : List Char}

/-- A text that is a number of a kind, from its first character to its last. -/
def Spells : OptionKind → List Char → Prop
  | .unsigned32, s | .unsigned64, s => s.head? ≠ some '-' ∧ IsQuantity 40 s
  | .signed32, s => IsQuantity 30 s
  | .signed64, s => IsInteger s
  | .binary64, s => IsBinary64 s
  | _, _ => False

/-- A text that goes on behind all that is looked at. -/
def Trails : OptionKind → List Char → Prop
  | .signed32, s => ∃ q more, s = q ++ more ∧ more ≠ [] ∧ IsSuffixed 30 q
  | .signed64, s => ∃ q more, s = q ++ more ∧ more ≠ [] ∧ IsInteger q ∧ Stops digit? more
  | _, _ => False

theorem spells_or_trails {v : SettingValue} (hkind : kind.isNumeric = true)
    (h : kind.read fresh option text = .ok v) :
    kind.Spells text.toList ∨ kind.Trails text.toList := by
  cases kind <;> cases hkind
  case signed32.refl =>
    obtain ⟨n, hn, -⟩ := exists_of_map_ok h
    rcases Quantity.signed32_ok (OptionValue.ofNumber_ok hn) with hint | ⟨q, more, htext, hq⟩
    · exact Or.inl (Or.inl hint)
    · by_cases hmore : more = []
      · rw [hmore, List.append_nil] at htext
        rw [htext]
        exact Or.inl (Or.inr hq)
      · exact Or.inr ⟨q, more, htext, hmore, hq⟩
  case signed64.refl =>
    obtain ⟨n, hn, -⟩ := exists_of_map_ok h
    obtain ⟨q, more, htext, hq, hstops⟩ := Quantity.signed64_ok (OptionValue.ofNumber_ok hn)
    by_cases hmore : more = []
    · rw [hmore, List.append_nil] at htext
      rw [htext]
      exact Or.inl hq
    · exact Or.inr ⟨q, more, htext, hmore, hq, hstops⟩
  case unsigned32.refl =>
    obtain ⟨n, hn, -⟩ := exists_of_map_ok h
    exact Or.inl (Quantity.unsigned32_ok (OptionValue.ofNumber_ok hn))
  case unsigned64.refl =>
    obtain ⟨n, hn, -⟩ := exists_of_map_ok h
    exact Or.inl (Quantity.unsigned64_ok (OptionValue.ofNumber_ok hn))
  case binary64.refl =>
    obtain ⟨n, hn, -⟩ := exists_of_map_ok h
    exact Or.inl (Quantity.binary64_ok (OptionValue.ofNumber_ok hn))

theorem Spells.isNumeric (h : kind.Spells s) : kind.isNumeric = true := by
  cases kind <;> first | rfl | exact h.elim

theorem Trails.isNumeric (h : kind.Trails s) : kind.isNumeric = true := by
  cases kind <;> first | rfl | exact h.elim

/-- A number is refused only for being out of range. -/
theorem read_spelled (h : kind.Spells text.toList) (fresh : RegionOptions) (option : String) :
    (∃ v, kind.read fresh option text = .ok v) ∨ ∃ subject,
      kind.read fresh option text = .error (.malformedValue option (.outOfRange subject)) := by
  cases kind with
  | signed32 => exact OptionValue.map_ofNumber _ (Quantity.signed32_whole h)
  | signed64 => exact OptionValue.map_ofNumber _ (Quantity.signed64_whole h)
  | unsigned32 => exact OptionValue.map_ofNumber _ (Quantity.unsigned32_whole h.1 h.2)
  | unsigned64 => exact OptionValue.map_ofNumber _ (Quantity.unsigned64_whole h.1 h.2)
  | binary64 => exact OptionValue.map_ofNumber _ (Quantity.binary64_numeral h)
  | boolean | string | mode | logLevel | regions | unknown => exact h.elim

/-- What trails is no number. -/
theorem Spells.not_trails (h : kind.Spells s) : ¬ kind.Trails s := by
  intro htrails
  cases kind with
  | signed32 =>
    obtain ⟨q, more, rfl, hmore, t, c, shift, rfl, hint, hshift, -⟩ := htrails
    obtain ⟨n, htaken, hall⟩ := Reading.integer?_append hint
    obtain ⟨n', hread, hrest⟩ := Quantity.IsQuantity.read h
    rw [List.append_assoc, List.singleton_append] at hread hrest
    rw [hall _ (Quantity.stops_suffix hshift more)] at hread
    cases hread
    rw [htaken, List.drop_left] at hrest
    rcases hrest with hnil | ⟨d, shift', hone, -⟩
    · cases hnil
    · exact hmore (List.cons.inj hone).2
  | signed64 =>
    obtain ⟨q, more, rfl, hmore, hint, hstops⟩ := htrails
    obtain ⟨n, htaken, hall⟩ := Reading.integer?_append hint
    obtain ⟨n', htaken', hall'⟩ := Reading.integer?_append (s := q ++ more) h
    have hread := hall' [] Reading.stops_nil
    rw [List.append_nil, hall more hstops] at hread
    cases hread
    rw [htaken, List.length_append] at htaken'
    exact hmore (List.length_eq_zero_iff.mp (by omega))
  | boolean | unsigned32 | unsigned64 | string | binary64 | mode | logLevel | regions | unknown =>
    exact htrails

/-- What trails makes no difference. -/
theorem Trails.read (h : kind.Trails text.toList) (fresh : RegionOptions) (option : String) :
    ∃ shorter more, text.toList = String.toList shorter ++ more ∧ more ≠ []
      ∧ kind.Spells shorter.toList ∧ kind.read fresh option text = kind.read fresh option shorter := by
  cases kind with
  | signed32 =>
    obtain ⟨q, more, htext, hmore, hq⟩ := h
    rw [← String.toList_ofList (l := q)] at htext hq
    refine ⟨String.ofList q, more, htext, hmore, Or.inr hq, ?_⟩
    unfold OptionKind.read OptionValue.signed32
    rw [Quantity.signed32_append hq htext]
  | signed64 =>
    obtain ⟨q, more, htext, hmore, hq, hstops⟩ := h
    rw [← String.toList_ofList (l := q)] at htext hq
    refine ⟨String.ofList q, more, htext, hmore, hq, ?_⟩
    unfold OptionKind.read OptionValue.signed64
    rw [Quantity.signed64_append hq hstops htext]
  | boolean | unsigned32 | unsigned64 | string | binary64 | mode | logLevel | regions | unknown =>
    exact h.elim

end OptionKind

/-! ## Tables -/

/-- How tables are checked for numbers where the keys have the given kinds. -/
structure ChecksNumbers {σ : Type} (kindOf? : String → Option OptionKind)
    (parse : List (String × String) → Except Fault σ) : Prop where
  /-- An accepted value is a number, and nothing else unless it trails. -/
  accepted : ∀ {table r key text kind}, parse table = .ok r → (key, text) ∈ table →
    kindOf? key = some kind → kind.isNumeric = true →
    kind.Spells text.toList ∨ kind.Trails text.toList
  /-- Where there is any other, the table is refused. -/
  refused : ∀ {table key text kind}, (key, text) ∈ table → kindOf? key = some kind →
    kind.isNumeric = true → ¬ kind.Spells text.toList → ¬ kind.Trails text.toList →
    ∃ fault, parse table = .error fault ∧ fault.kind = .invalidArgument
  /-- A number by itself is refused only for being out of range. -/
  spelled : ∀ {key text kind}, kindOf? key = some kind → kind.Spells text.toList →
    (∃ r, parse [(key, text)] = .ok r) ∨ ∃ subject,
      parse [(key, text)] = .error (.malformedValue key (.outOfRange subject))
  /-- A value that trails is no number, but the table is read as if it ended where one does. -/
  trailing : ∀ {front key text back kind}, kindOf? key = some kind → kind.Trails text.toList →
    ¬ kind.Spells text.toList ∧ ∃ shorter more,
      text.toList = String.toList shorter ++ more ∧ more ≠ [] ∧ kind.Spells shorter.toList
        ∧ parse (front ++ (key, text) :: back) = parse (front ++ (key, shorter) :: back)

theorem Keyed.checksNumbers {σ : Type} (K : Keyed σ) {kindOf? : String → Option OptionKind}
    (fresh : RegionOptions) (hread : ∀ {key kind}, kindOf? key = some kind →
      kind.isNumeric = true → ∀ text, K.read key text = kind.read fresh key text)
    (herror : ∀ {key text fault}, K.read key text = .error fault → fault.kind = .invalidArgument)
    (base : σ) : ChecksNumbers kindOf? (K.ofTable base) where
  accepted hok hmem hkey hkind := by
    obtain ⟨v, hv⟩ := K.readable_of_ok hok _ hmem
    rw [hread hkey hkind] at hv
    exact OptionKind.spells_or_trails hkind hv
  refused {table key text kind} hmem hkey hkind hspells htrails := by
    have hnot : ¬ K.Readable table := fun hall => by
      obtain ⟨v, hv⟩ := hall _ hmem
      rw [hread hkey hkind] at hv
      rcases OptionKind.spells_or_trails hkind hv with h | h
      · exact hspells h
      · exact htrails h
    obtain ⟨e, -, fault, hfault, hout⟩ := K.ofTable_of_not_readable hnot base
    exact ⟨fault, hout, herror hfault⟩
  spelled {key text kind} hkey hspells := by
    have hkind := hspells.isNumeric
    rw [K.ofTable_cons, hread hkey hkind]
    rcases OptionKind.read_spelled hspells fresh key with ⟨v, hv⟩ | ⟨subject, hv⟩
    · rw [hv]
      exact Or.inl ⟨_, rfl⟩
    · rw [hv]
      exact Or.inr ⟨subject, rfl⟩
  trailing {front key text back kind} hkey htrails := by
    have hkind := htrails.isNumeric
    obtain ⟨shorter, more, htext, hmore, hspells, hsame⟩ := htrails.read fresh key
    refine ⟨fun h => h.not_trails htrails, shorter, more, htext, hmore, hspells, ?_⟩
    unfold Keyed.ofTable
    rw [List.foldlM_append, List.foldlM_append]
    refine congrArg (List.foldlM _ base front >>= ·) (funext fun o => ?_)
    rw [List.foldlM_cons, List.foldlM_cons, hread hkey hkind, hread hkey hkind, hsame]

/-- **Malformed numbers are never accepted**, for no setting of a region or of a registry, unless
they are signed: those are read up to their end, and what stands behind that is not looked at. -/
theorem ofTable_checksNumbers (fresh base : RegionOptions) (base' : MemoryOptions) :
    ChecksNumbers RegionOptions.kindOf? base.ofTable
      ∧ ChecksNumbers MemoryOptions.kindOf? (base'.ofTable fresh) := by
  refine ⟨?_, ?_⟩
  · rw [show base.ofTable = (RegionOptions.keyed fresh).ofTable base from
      funext (RegionOptions.ofTable_eq fresh base)]
    refine (RegionOptions.keyed fresh).checksNumbers fresh ?_
      RegionOptions.read_error_kind base
    intro key kind hkey _ text
    simp only [RegionOptions.keyed, RegionOptions.read, hkey]
  · rw [show base'.ofTable fresh = (MemoryOptions.keyed fresh.listOfText fresh).ofTable base' from
      funext (MemoryOptions.ofTable_eq fresh base')]
    refine (MemoryOptions.keyed fresh.listOfText fresh).checksNumbers fresh ?_
      MemoryOptions.read_error_kind base'
    intro key kind hkey hkind text
    simp only [MemoryOptions.keyed, MemoryOptions.read, hkey]
    split
    · next heq => cases heq
    · next heq =>
      cases heq
      cases hkind
    · next heq =>
      cases heq
      rfl

/-- **Malformed signed numbers are accepted**: sixty seconds are read as sixty milliseconds, and
`5kxyz` as 5120. -/
theorem ofTable_accepts_trailing_text : ∃ o : RegionOptions,
    RegionOptions.kindOf? "rate_time_interval_ms" = some .signed64
      ∧ ¬ OptionKind.signed64.Spells "60s".toList
      ∧ o.ofTable [("rate_time_interval_ms", "60s")] = .ok { o with rateInterval := 60 }
      ∧ RegionOptions.kindOf? "sub_intervals" = some .signed32
      ∧ ¬ OptionKind.signed32.Spells "5kxyz".toList
      ∧ o.ofTable [("sub_intervals", "5kxyz")] = .ok { o with subIntervals := 5120 } := by
  have hblanks : ∀ c ∈ [], Text.isBlank c = true := nofun
  have hdigits : ∀ s : List Char, s ≠ [] → s.Forall (fun c => (digit? c).isSome = true) →
      IsInteger s :=
    fun s hne hs => .intro hblanks (Or.inl rfl) ⟨hne, List.forall_iff_forall_mem.mp hs⟩
  have hseconds : OptionKind.signed64.Trails "60s".toList :=
    ⟨"60".toList, ['s'], rfl, by decide, hdigits _ (by decide) (by decide),
      Reading.stops_cons rfl⟩
  have hkilo : OptionKind.signed32.Trails "5kxyz".toList :=
    ⟨"5k".toList, "xyz".toList, rfl, by decide, "5".toList, 'k', 10, rfl,
      hdigits _ (by decide) (by decide), rfl, by decide⟩
  exact ⟨.usual ⟨0, 0⟩ "r", rfl, fun h => h.not_trails hseconds, by rfl, rfl,
    fun h => h.not_trails hkilo, by rfl⟩

end PageRegions
