import Mathlib.Data.List.Forall2
import PageRegions.Proofs.Options.Blanks
import PageRegions.Proofs.Options.Delivered

/-!
# Lists of regions

The regions of a registry are written as a list of option texts, each in braces, with colons between
them (`listText`). Such a list is read element by element: it is read just if each of its texts is,
to what these say one by one, and otherwise it is refused with the fault of the first that is not,
and the caller keeps what there was (`regions_listed`). The texts may hold colons, semicolons and
lists of their own, and blanks may stand around all braces.

That the list is a setting of a registry adds another pair of braces, and nothing else: its value is
the list, with blanks trimmed off that have no meaning in a list (`listOfText_trim`).
-/

set_option autoImplicit false

namespace PageRegions

open Text (isBlank trim)

namespace Token

/-! ## What is written -/

/-- An option text in a list, with blanks around its braces. -/
structure Element where
  left : List Char
  text : List Char
  right : List Char
  deriving DecidableEq, Repr

namespace Element

def written (e : Element) : List Char := e.left ++ '\x7b' :: (e.text ++ '\x7d' :: e.right)

/-- The elements that stand for a region. -/
structure Readable (e : Element) : Prop where
  left : ∀ c ∈ e.left, isBlank c = true
  right : ∀ c ∈ e.right, isBlank c = true
  balanced : Balanced e.text
  solid : ∃ c ∈ e.text, isBlank c = false

instance (e : Element) : Decidable e.Readable :=
  decidable_of_iff (e.left.all isBlank = true ∧ e.right.all isBlank = true ∧ Balanced e.text
      ∧ e.text.any (!isBlank ·) = true) <| by
    simp only [List.all_eq_true, List.any_eq_true, Bool.not_eq_true']
    exact ⟨fun ⟨left, right, balanced, solid⟩ => ⟨left, right, balanced, solid⟩,
      fun h => ⟨h.left, h.right, h.balanced, h.solid⟩⟩

end Element

/-- The text of a list, with colons between its elements. -/
def listText : List Element → List Char
  | [] => []
  | [e] => e.written
  | e :: next :: more => e.written ++ ':' :: listText (next :: more)

/-- The text that sets the regions of a registry to a list, with blanks around and inside the
braces. -/
def regionsText (left gap : List Char) (elements : List Element) (right : List Char) : List Char :=
  "regions=".toList ++ (left ++ '\x7b' :: (gap ++ listText elements ++ '\x7d' :: right))

variable {e : Element} {elements : List Element} {left gap right : List Char}

theorem listText_cons (e : Element) (more : List Element) :
    listText (e :: more)
      = e.written ++ followedBy ':' (if more = [] then none else some (listText more)) := by
  cases more with
  | nil => exact (List.append_nil _).symm
  | cons next more => rfl

/-! ## Tokens of a list -/

theorem Element.Readable.next (he : e.Readable) (rest? : Option (List Char)) :
    next ':' (e.written ++ followedBy ':' rest?) = .ok ⟨trim e.text, rest?⟩ := by
  have hbehind : (e.right ++ followedBy ':' rest?).dropWhile isBlank = followedBy ':' rest? := by
    rw [List.dropWhile_append_of_pos he.right]
    cases rest? <;> rfl
  have hsplit : e.written ++ followedBy ':' rest?
      = e.left ++ '\x7b' :: (e.text ++ '\x7d' :: (e.right ++ followedBy ':' rest?)) := by
    simp [Element.written]
  rw [hsplit, next_in_braces he.left he.balanced, hbehind]
  cases rest? with
  | none => rfl
  | some rest => exact if_pos rfl

/-- The braces of a list match. -/
theorem balanced_listText (hall : ∀ e ∈ elements, e.Readable) : Balanced (listText elements) := by
  induction elements with
  | nil => exact .of_notMem List.not_mem_nil List.not_mem_nil
  | cons e more ih =>
    obtain ⟨he, hmore⟩ := List.forall_mem_cons.mp hall
    have hwritten : Balanced e.written := by
      have hbraces := ((Balanced.of_blanks he.left).append he.balanced.inBraces).append
        (Balanced.of_blanks he.right)
      rwa [List.append_assoc, List.cons_append, List.append_assoc, List.singleton_append] at hbraces
    cases more with
    | nil => exact hwritten
    | cons next more =>
      have hcolon : Balanced [':'] := .of_notMem (by decide) (by decide)
      have hlist := hwritten.append (hcolon.append (ih hmore))
      rwa [List.singleton_append] at hlist

/-- The one pair of a text that sets regions. -/
theorem pairsOf_regionsText (hall : ∀ e ∈ elements, e.Readable)
    (hleft : ∀ c ∈ left, isBlank c = true) (hgap : ∀ c ∈ gap, isBlank c = true)
    (hright : ∀ c ∈ right, isBlank c = true) :
    pairsOf (regionsText left gap elements right)
      = ⟨[("regions", String.ofList (trim (gap ++ listText elements)))], none⟩ := by
  generalize hinside : gap ++ listText elements = inside
  have hbalanced : Balanced inside :=
    hinside ▸ (Balanced.of_blanks hgap).append (balanced_listText hall)
  -- Blanks behind the braces are those behind the whole text.
  have htrim : trim (regionsText left gap elements right)
      = "regions".toList ++ '=' :: (left ++ '\x7b' :: (inside ++ ['\x7d'])) := by
    have hsplit : regionsText left gap elements right
        = "regions".toList ++ '=' :: (left ++ '\x7b' :: (inside ++ ['\x7d'])) ++ right := by
      unfold regionsText
      rw [hinside, show "regions=".toList = "regions".toList ++ ['='] from rfl]
      simp only [List.append_assoc, List.cons_append, List.nil_append]
    have htrimmed : Trimmed ("regions".toList ++ '=' :: (left ++ '\x7b' :: (inside ++ ['\x7d']))) := by
      have hlast : "regions".toList ++ '=' :: (left ++ '\x7b' :: (inside ++ ['\x7d']))
          = "regions".toList ++ '=' :: (left ++ '\x7b' :: inside) ++ ['\x7d'] := by simp
      refine ⟨fun c hc => ?_, fun c hc => ?_⟩
      · cases hc
        rfl
      · rw [hlast, List.getLast?_concat] at hc
        cases hc
        rfl
    rw [hsplit, trim_append_blanks hright ⟨'r', List.mem_append_left _ (by decide), by decide⟩,
      trim_of_trimmed htrimmed]
  have hkey : trim "regions".toList = "regions".toList := by decide
  have hunbraced : ("regions".toList ++ '=' :: (left ++ '\x7b' :: (inside ++ ['\x7d']))).head?
      ≠ some '\x7b' := fun hbrace => absurd (Option.some.inj hbrace) (by decide)
  have hplain : ∀ c ∈ "regions".toList, endsKey c = false := by simp [endsKey]
  unfold pairsOf
  rw [htrim, unwrap_of_head hunbraced, readPairs_entry hplain (by rw [hkey]; decide), hkey,
    next_in_braces hleft hbalanced]
  rfl

end Token

/-! ## One after the other -/

section

variable {α β : Type} {f : α → Except Fault β} {l : List α}

theorem mapM_cons_eq (f : α → Except Fault β) (a : α) (l : List α) :
    (a :: l).mapM f = (f a).bind fun b => (l.mapM f).map (b :: ·) := by
  rw [List.mapM_cons]
  cases f a with
  | error => rfl
  | ok b => cases hl : l.mapM f <;> rfl

theorem mapM_eq_ok {bs : List β} :
    l.mapM f = .ok bs ↔ List.Forall₂ (fun a b => f a = .ok b) l bs := by
  induction l generalizing bs with
  | nil =>
    rw [List.forall₂_nil_left_iff]
    exact ⟨fun h => (Except.ok.inj h).symm, fun h => congrArg Except.ok h.symm⟩
  | cons a l ih =>
    rw [List.forall₂_cons_left_iff, mapM_cons_eq]
    cases f a with
    | error => exact ⟨nofun, fun ⟨_, _, hb, _⟩ => nomatch hb⟩
    | ok b =>
      cases hl : l.mapM f with
      | error =>
        refine ⟨nofun, ?_⟩
        rintro ⟨b', bs', -, hrest, -⟩
        rw [← ih, hl] at hrest
        cases hrest
      | ok rest =>
        constructor
        · rintro ⟨⟩
          exact ⟨b, rest, rfl, ih.mp hl, rfl⟩
        · rintro ⟨b', bs', hb, hrest, rfl⟩
          rw [← ih, hl] at hrest
          cases hb
          cases hrest
          rfl

theorem mapM_eq_error {fault : Fault} :
    l.mapM f = .error fault ↔ ∃ front a back, l = front ++ a :: back
      ∧ (∀ other ∈ front, ∃ b, f other = .ok b) ∧ f a = .error fault := by
  induction l with
  | nil =>
    refine ⟨nofun, ?_⟩
    rintro ⟨front, a, back, heq, -⟩
    exact absurd heq.symm (List.append_ne_nil_of_right_ne_nil _ (List.cons_ne_nil _ _))
  | cons a l ih =>
    rw [mapM_cons_eq]
    constructor
    · intro herror
      cases ha : f a with
      | error cause =>
        rw [ha] at herror
        cases herror
        exact ⟨[], a, l, rfl, List.forall_mem_nil _, ha⟩
      | ok b =>
        cases hl : l.mapM f with
        | ok rest =>
          rw [ha, hl] at herror
          cases herror
        | error cause =>
          rw [ha, hl] at herror
          cases herror
          obtain ⟨front, other, back, rfl, hfront, hother⟩ := ih.mp hl
          exact ⟨a :: front, other, back, rfl,
            List.forall_mem_cons.mpr ⟨⟨b, ha⟩, hfront⟩, hother⟩
    · rintro ⟨_ | ⟨first, front⟩, other, back, heq, hfront, hother⟩
      · cases heq
        rw [hother]
        rfl
      · cases heq
        obtain ⟨⟨b, hb⟩, hfront⟩ := List.forall_mem_cons.mp hfront
        rw [hb, ih.mpr ⟨front, other, back, rfl, hfront, hother⟩]
        rfl

end

/-! ## Reading a list -/

namespace RegionOptions

open Token

variable {s blanks : List Char} {e : Element} {elements more : List Element}

/-- A text says the same when it is trimmed. -/
theorem ofText_trim (base : RegionOptions) (s : List Char) :
    base.ofText (trim s) = base.ofText s := by
  unfold ofText pairsOf
  rw [trim_trim]

/-- Blanks behind a list say nothing. -/
theorem listOfText_append_blanks (base : RegionOptions) (hblanks : ∀ c ∈ blanks, isBlank c = true)
    (s : List Char) : base.listOfText (s ++ blanks) = base.listOfText s := by
  -- The induction is on the tokens that are left.
  induction hlength : s.length using Nat.strong_induction_on generalizing s with
  | _ length ih =>
    rw [listOfText_next, next_append_blanks (by decide) hblanks, base.listOfText_next s]
    rcases hnext : next ':' s with fault | ⟨token, _ | rest⟩
    · rfl
    · rfl
    · have hrest := ih rest.length (hlength ▸ next_rest_length hnext) rest rfl
      simp only [Except.map, Except.bind, Scan.append, Option.map_some, hrest]

/-- **Trimming a list** changes nothing of what it says, even if it holds blanks only. -/
theorem listOfText_trim (base : RegionOptions) (s : List Char) :
    base.listOfText (trim s) = base.listOfText s := by
  rcases blank_or_solid s with hblank | hsolid
  · have hnone : ∀ t : List Char, (∀ c ∈ t, isBlank c = true) → base.listOfText t = .ok [] := by
      intro t ht
      rw [← List.nil_append t, listOfText_append_blanks base ht]
      rw [listOfText]
    rw [hnone s hblank, hnone _ (trim_of_blanks hblank)]
  · obtain ⟨left, right, hsplit, hleft, hright, -⟩ := exists_trim hsolid
    conv_rhs => rw [hsplit]
    rw [base.listOfText_next (left ++ (trim s ++ right)), next_blanks_append hleft,
      ← base.listOfText_next (trim s ++ right), listOfText_append_blanks base hright]

/-- The first element of a list is read, and then the others. -/
theorem listOfText_cons (base : RegionOptions) (he : e.Readable) :
    base.listOfText (listText (e :: more))
      = (base.ofText e.text).bind fun region =>
        (base.listOfText (listText more)).map (region :: ·) := by
  have htoken : trim e.text ≠ [] := by
    obtain ⟨-, -, -, -, -, hne, -⟩ := exists_trim he.solid
    exact hne
  rw [listText_cons, listOfText_next, he.next]
  simp only [Except.bind, if_neg htoken, ofText_trim]
  cases base.ofText e.text with
  | error fault => rfl
  | ok region =>
    cases more with
    | nil =>
      rw [if_pos rfl, listText, listOfText]
      rfl
    | cons next more => rfl

/-! ## Element by element -/

/-- Reading a list is to read its texts in turn. -/
theorem listOfText_listText (base : RegionOptions) (hall : ∀ e ∈ elements, e.Readable) :
    base.listOfText (listText elements) = (elements.map Element.text).mapM base.ofText := by
  induction elements with
  | nil =>
    rw [listText, listOfText]
    rfl
  | cons e more ih =>
    obtain ⟨he, hmore⟩ := List.forall_mem_cons.mp hall
    rw [listOfText_cons base he, List.map_cons, mapM_cons_eq, ih hmore]

/-- What reading some texts one by one comes to for a caller with a target. In its place is a region
for each, in their order, or what `whole` makes of these; or it is as it was, and there is the fault
of the first text that cannot be read. -/
structure ReadEach {σ : Type} (base : RegionOptions) (texts : List (List Char))
    (whole : List RegionOptions → σ) (target : σ) (out : Status × σ) : Prop where
  ok : ∀ r, out = (.ok, r) ↔ ∃ regions, r = whole regions
    ∧ List.Forall₂ (fun text region => base.ofText text = .ok region) texts regions
  failed : ∀ fault r, out = (.failed fault, r) ↔ r = target
    ∧ ∃ front text back, texts = front ++ text :: back
      ∧ (∀ other ∈ front, ∃ region, base.ofText other = .ok region)
      ∧ base.ofText text = .error fault

theorem readEach_deliver {σ : Type} (base : RegionOptions) (texts : List (List Char))
    (whole : List RegionOptions → σ) (target : σ) :
    base.ReadEach texts whole target (deliver target ((texts.mapM base.ofText).map whole)) where
  ok r := by
    rw [deliver_eq_ok]
    cases hread : texts.mapM base.ofText with
    | error =>
      refine ⟨nofun, ?_⟩
      rintro ⟨regions, -, hregions⟩
      rw [mapM_eq_ok.mpr hregions] at hread
      cases hread
    | ok found =>
      constructor
      · rintro ⟨⟩
        exact ⟨found, rfl, mapM_eq_ok.mp hread⟩
      · rintro ⟨regions, rfl, hregions⟩
        rw [mapM_eq_ok.mpr hregions] at hread
        cases hread
        rfl
  failed fault r := by
    rw [deliver_eq_failed, and_comm, ← mapM_eq_error]
    refine and_congr_right fun _ => ?_
    cases texts.mapM base.ofText with
    | error cause => exact ⟨fun h => by cases h; rfl, fun h => by cases h; rfl⟩
    | ok found => exact ⟨nofun, nofun⟩

end RegionOptions

/-- A text that sets regions replaces them, and nothing else. -/
theorem MemoryOptions.ofText_regionsText (fresh : RegionOptions) (base : MemoryOptions)
    {left gap right : List Char} {elements : List Token.Element}
    (hall : ∀ e ∈ elements, e.Readable) (hleft : ∀ c ∈ left, isBlank c = true)
    (hgap : ∀ c ∈ gap, isBlank c = true) (hright : ∀ c ∈ right, isBlank c = true) :
    base.ofText fresh (Token.regionsText left gap elements right)
      = (fresh.listOfText (Token.listText elements)).map fun regions =>
        { base with regions := regions } := by
  have hlist : fresh.listOfText (gap ++ Token.listText elements)
      = fresh.listOfText (Token.listText elements) := by
    rw [RegionOptions.listOfText_next, Token.next_blanks_append hgap, ← RegionOptions.listOfText_next]
  unfold MemoryOptions.ofText
  rw [Token.pairsOf_regionsText hall hleft hgap hright, ← hlist, ← fresh.listOfText_trim]
  change (base.set fresh "regions" _ >>= pure) = _
  rw [bind_pure]
  change Except.map _ (fresh.listOfText (String.ofList _).toList) = _
  rw [String.toList_ofList]

/-- **Lists of regions are read element by element**, by themselves and as a setting of a registry,
and each element as it would be for a caller of its own. -/
theorem regions_listed {elements : List Token.Element} (hall : ∀ e ∈ elements, e.Readable) :
    (∀ (base : RegionOptions) (target : List RegionOptions),
      base.ReadEach (elements.map Token.Element.text) id target
        (base.listInto target (Token.listText elements)))
    ∧ (∀ (fresh : RegionOptions) (base target : MemoryOptions) (left gap right : List Char),
      (∀ c ∈ left ++ gap ++ right, isBlank c = true) →
      fresh.ReadEach (elements.map Token.Element.text)
        (fun regions => { base with regions := regions }) target
        (base.textInto fresh target (Token.regionsText left gap elements right)))
    ∧ ∀ (base target : RegionOptions) (text : List Char),
      base.textInto target text = deliver target (base.ofText text) := by
  refine ⟨fun base target => ?_, fun fresh base target left gap right hblanks => ?_,
    fun base target text => base.textInto_eq target text⟩
  · have hread := base.readEach_deliver (elements.map Token.Element.text) id target
    rwa [Except.map_id, ← base.listOfText_listText hall, id_eq, ← base.listInto_eq] at hread
  · obtain ⟨hfront, hright⟩ := List.forall_mem_append.mp hblanks
    obtain ⟨hleft, hgap⟩ := List.forall_mem_append.mp hfront
    rw [base.textInto_eq, base.ofText_regionsText fresh hall hleft hgap hright,
      fresh.listOfText_listText hall]
    exact fresh.readEach_deliver _ _ target

/-- Two regions. The text of the first has a list of its own in a value, and blanks stand around the
braces of the second. -/
def Token.twoRegions : List Token.Element :=
  [⟨[], "name=a;swap_file_path=\x7bx:\x7by\x7d;z\x7d".toList, []⟩,
    ⟨['\t'], " max_size=1m ".toList, [' ']⟩]

theorem regions_listed_two :
    (∀ e ∈ Token.twoRegions, e.Readable)
      ∧ Token.regionsText [' '] [] Token.twoRegions []
        = ("regions= \x7b\x7bname=a;swap_file_path=\x7bx:\x7by\x7d;z\x7d\x7d"
          ++ ":\t\x7b max_size=1m \x7d \x7d").toList
      ∧ ∀ target, MemoryOptions.usual.textInto (RegionOptions.usual ⟨0, 0⟩ "") target
          (Token.regionsText [' '] [] Token.twoRegions [])
        = (.ok, { MemoryOptions.usual with
            regions := [{ RegionOptions.usual ⟨0, 0⟩ "a" with swapPath := "x:\x7by\x7d;z" },
              { RegionOptions.usual ⟨0, 0⟩ "" with maxSize := 1048576 }] }) := by
  have hall : ∀ e ∈ Token.twoRegions, e.Readable := by decide +kernel
  have hpairs : Token.pairsOf "name=a;swap_file_path=\x7bx:\x7by\x7d;z\x7d".toList
      = ⟨[("name", "a"), ("swap_file_path", "x:\x7by\x7d;z")], none⟩ := by decide +kernel
  have hpairs' : Token.pairsOf " max_size=1m ".toList = ⟨[("max_size", "1m")], none⟩ := by
    decide +kernel
  have hregions : List.Forall₂
      (fun text region => (RegionOptions.usual ⟨0, 0⟩ "").ofText text = .ok region)
      (Token.twoRegions.map Token.Element.text)
      [{ RegionOptions.usual ⟨0, 0⟩ "a" with swapPath := "x:\x7by\x7d;z" },
        { RegionOptions.usual ⟨0, 0⟩ "" with maxSize := 1048576 }] := by
    refine .cons (RegionOptions.ofText_ok.mpr ?_) (.cons (RegionOptions.ofText_ok.mpr ?_) .nil)
    · rw [hpairs]
      exact ⟨rfl, rfl⟩
    · rw [hpairs']
      exact ⟨rfl, rfl⟩
  refine ⟨hall, by decide +kernel, fun target => ?_⟩
  have hlisted := (regions_listed hall).2.1 (RegionOptions.usual ⟨0, 0⟩ "") MemoryOptions.usual
    target [' '] [] [] (List.forall_mem_singleton.mpr rfl)
  exact (hlisted.ok _).mpr ⟨_, rfl, hregions⟩

end PageRegions
