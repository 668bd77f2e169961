import PageRegions.Host.FileTree

/-!
# Where walks lead

A walk takes one step for each name, and all that it steps from are directories. So a walk that ends
with one name more is a walk and a step (`walk_concat_ok`), and what a path leads to is what the walk
of its names leads to (`resolve_ok`).
-/

set_option autoImplicit false

namespace PageRegions
namespace FileTree

variable {t : FileTree} {start target : List String} {name : String} {names : List String}

/-- Where one step from a directory leads. -/
inductive Step (t : FileTree) (start : List String) : String → List String → Prop
  | here : Step t start "." start
  | up : Step t start ".." start.dropLast
  | into (name : String) (ne_here : name ≠ ".") (ne_up : name ≠ "..")
      (short : name.length ≤ longestName)
      (found : (t.entry? (start ++ [name])).isSome = true) :
      Step t start name (start ++ [name])

theorem walkStep_ok :
    t.walkStep start name = .ok target
      ↔ t.entry? start = some .directory ∧ Step t start name target := by
  unfold walkStep isDirectory
  by_cases hdir : t.entry? start = some .directory
  · rw [decide_eq_true hdir, if_neg (by decide)]
    refine ⟨fun h => ⟨hdir, ?_⟩, fun h => ?_⟩
    · split at h
      · next hname =>
        cases h
        exact hname ▸ .here
      split at h
      · next hname =>
        cases h
        exact hname ▸ .up
      split at h
      · cases h
      split at h
      · cases h
        exact .into name ‹_› ‹_› (Nat.not_lt.mp ‹_›) ‹_›
      · cases h
    · cases h.2 with
      | here => rw [if_pos rfl]
      | up => rw [if_neg (by decide), if_pos rfl]
      | into _ hhere hup hshort hfound =>
        rw [if_neg hhere, if_neg hup, if_neg (Nat.not_lt.mpr hshort), if_pos hfound]
  · rw [decide_eq_false hdir, if_pos (by decide)]
    exact ⟨nofun, fun h => absurd h.1 hdir⟩

theorem walk_cons_ok :
    t.walk start (name :: names) = .ok target
      ↔ ∃ next, t.walkStep start name = .ok next ∧ t.walk next names = .ok target := by
  rw [walk]
  cases t.walkStep start name <;> simp

theorem walk_concat_ok :
    t.walk start (names ++ [name]) = .ok target
      ↔ ∃ next, t.walk start names = .ok next ∧ t.walkStep next name = .ok target := by
  induction names generalizing start with
  | nil =>
    rw [List.nil_append, walk_cons_ok]
    simp only [FileTree.walk, Except.ok.injEq, exists_eq_right, exists_eq_left']
  | cons first names ih =>
    simp only [List.cons_append, walk_cons_ok, ih]
    constructor
    · rintro ⟨next, hstep, last, hwalk, hlast⟩
      exact ⟨last, ⟨next, hstep, hwalk⟩, hlast⟩
    · rintro ⟨last, ⟨next, hstep, hwalk⟩, hlast⟩
      exact ⟨next, hstep, last, hwalk, hlast⟩

theorem resolve_ok {path : String} : t.resolve path = .ok target ↔ checkLength path = .ok ()
    ∧ t.walk (t.start (Written.ofText path)) (Written.ofText path).names = .ok target
    ∧ ((Written.ofText path).slashed = true → t.entry? target = some .directory) := by
  unfold resolve isDirectory
  cases checkLength path with
  | error e => exact ⟨nofun, fun h => nomatch h.1⟩
  | ok =>
    simp only
    cases t.walk (t.start (Written.ofText path)) (Written.ofText path).names with
    | error e => exact ⟨nofun, fun h => nomatch h.2.1⟩
    | ok found =>
      simp only [Except.ok.injEq, true_and]
      split
      · next h =>
        rw [Bool.and_eq_true, Bool.not_eq_true', decide_eq_false_iff_not] at h
        constructor
        · intro heq
          cases heq
        · rintro ⟨rfl, hdir⟩
          exact absurd (hdir h.1) h.2
      · next h =>
        rw [Bool.and_eq_true, Bool.not_eq_true', decide_eq_false_iff_not] at h
        constructor
        · intro heq
          cases heq
          exact ⟨rfl, fun hslashed => Decidable.of_not_not fun hother => h ⟨hslashed, hother⟩⟩
        · rintro ⟨rfl, -⟩
          rfl

/-- Only what a path to a directory leads to is listed. -/
theorem listing_ok {path : String} (h : t.listing path = .ok names) :
    ∃ found, t.resolve path = .ok found ∧ t.isDirectory found = true
      ∧ names = t.children found := by
  unfold listing list at h
  cases hresolve : t.resolve path with
  | error e =>
    rw [hresolve] at h
    cases h
  | ok found =>
    simp only [hresolve] at h
    split at h
    · next hdirectory =>
      cases h
      exact ⟨found, rfl, hdirectory, rfl⟩
    · cases h

end FileTree
end PageRegions
