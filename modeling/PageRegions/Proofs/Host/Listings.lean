import PageRegions.Proofs.Host.Traces

/-!
# Directories and what they list

A directory lists the names of what lies right in it (`mem_children`). A path with a name behind the
directory is the way to what is listed: it finds that (`Finds.behind`), opens and deletes it
(`Finds.at`), if the path is not too long. So what a name stands for can be followed through the
additions and removals of a directory, one name each (`children_add`, `children_remove`), and to
remove what was added is to do nothing (`remove_add`).
-/

set_option autoImplicit false

namespace PageRegions
namespace FileTree

variable {t t' : FileTree} {directory name path : String} {place target : List String}
  {entry : Entry}

/-! ## What a directory lists -/

theorem entry?_eq_none (hne : target ≠ []) :
    t.entry? target = none ↔ ∀ e ∈ t.entries, e.1 ≠ target := by
  rw [entry?_of_ne_nil _ hne, Option.map_eq_none_iff, List.find?_eq_none]
  simp only [decide_eq_true_eq]

/-- **A directory lists the names of what is there.** -/
theorem mem_children : name ∈ t.children place ↔ t.entry? (place ++ [name]) ≠ none := by
  rw [ne_eq, entry?_eq_none (List.append_ne_nil_of_right_ne_nil _ (List.cons_ne_nil _ _))]
  unfold children
  rw [List.mem_filterMap]
  push Not
  refine exists_congr fun e => and_congr_right fun _ => ?_
  constructor
  · intro hname
    split at hname
    · next hplace =>
      rw [← List.dropLast_append_getLast? name hname, hplace.2]
    · cases hname
  · intro he
    rw [he, List.dropLast_concat, List.getLast?_concat, if_pos]
    exact ⟨List.append_ne_nil_of_right_ne_nil _ (List.cons_ne_nil _ _), rfl⟩

theorem Finds.leads (h : t.Finds directory place .directory) : t.Leads directory :=
  ⟨place, h.resolves, decide_eq_true h.found⟩

theorem Finds.listing (h : t.Finds directory place .directory) :
    t.listing directory = .ok (t.children place) := by
  unfold FileTree.listing list isDirectory
  rw [h.resolves]
  simp only [h.found, decide_true, if_true]
  rfl

theorem finds_of_listing {names : List String} (h : t.listing directory = .ok names) :
    ∃ place, t.Finds directory place .directory ∧ names = t.children place := by
  obtain ⟨place, hresolve, hdirectory, hnames⟩ := listing_ok h
  exact ⟨place, ⟨hresolve, of_decide_eq_true hdirectory⟩, hnames⟩

theorem children_add (t : FileTree) (place : List String) (name : String) (entry : Entry) :
    FileTree.children (t.add (place ++ [name]) entry) place = t.children place ++ [name] := by
  unfold children add
  rw [List.filterMap_append]
  simp

theorem children_remove (t : FileTree) (place : List String) (name : String) :
    FileTree.children (t.remove (place ++ [name])) place = (t.children place).filter (· ≠ name) := by
  unfold children remove
  rw [List.filter_filterMap, List.filterMap_filter]
  congr 1
  funext e
  by_cases hplace : e.1 ≠ [] ∧ e.1.dropLast = place
  · obtain ⟨last, hlast⟩ : ∃ last, e.1 = place ++ [last] := by
      obtain ⟨hne, rfl⟩ := hplace
      exact ⟨e.1.getLast hne, (List.dropLast_append_getLast hne).symm⟩
    rw [if_pos hplace, hlast, List.getLast?_concat]
    by_cases hname : last = name <;> simp [hname, Option.filter]
  · rw [if_neg hplace, ite_self]
    rfl

/-! ## Adding and removing -/

theorem remove_add (hnone : t.entry? target = none) (entry : Entry) :
    (t.add target entry).remove target = t := by
  have hne : target ≠ [] := by
    rintro rfl
    cases hnone
  have hall := (entry?_eq_none hne).mp hnone
  unfold add remove
  rw [List.filter_append, List.filter_cons_of_neg (by simp), List.filter_nil, List.append_nil,
    List.filter_eq_self.mpr fun e he => decide_eq_true (hall e he)]

theorem resize_add (hnone : t.entry? target = none) (block size size' : Nat) :
    (t.add target (.file block size)).resize target size' = t.add target (.file block size') := by
  have hne : target ≠ [] := by
    rintro rfl
    cases hnone
  have hall := (entry?_eq_none hne).mp hnone
  have hsame : t.entries.map (fun e => (e.1, sized target e.1 size' e.2)) = t.entries := by
    conv_rhs => rw [← List.map_id t.entries]
    refine List.map_congr_left fun e he => ?_
    obtain ⟨path, _ | _ | _⟩ := e
    · rfl
    · rw [sized, if_neg (hall _ he)]
      rfl
    · rfl
  rw [resize_eq]
  unfold add
  rw [List.map_append, hsame, List.map_singleton]
  simp only [sized, if_true]

/-! ## Paths behind a directory -/

section Behind

variable (hbase : IsBase directory) (hname : IsName name)

include hbase hname

/-- The place of a name behind a directory. -/
theorem Finds.placed (h : t.Finds directory target .directory)
    (hlength : checkLength (directory ++ "/" ++ name) = .ok ())
    (hshort : name.length ≤ longestName) :
    t.place (directory ++ "/" ++ name) = .ok ⟨target, .name name, false⟩ := by
  obtain ⟨-, hwalk, -⟩ := resolve_ok.mp h.resolves
  have hdirectory : t.isDirectory target = true := decide_eq_true h.found
  unfold FileTree.place
  rw [hlength]
  simp only [names_behind hbase hname, start_behind hbase hname, slashed_behind hbase hname,
    List.dropLast_concat, ofNames_concat hname, hwalk, hdirectory, Bool.not_true,
    Bool.false_eq_true, if_false, if_neg (Nat.not_lt.mpr hshort)]

/-- What is found behind a directory was found by a path that is not too long. -/
theorem Finds.short (h : t.Finds (directory ++ "/" ++ name) target entry) :
    checkLength (directory ++ "/" ++ name) = .ok () ∧ name.length ≤ longestName := by
  obtain ⟨hlength, hwalk, -⟩ := resolve_ok.mp h.resolves
  rw [names_behind hbase hname, start_behind hbase hname] at hwalk
  obtain ⟨place, -, hstep⟩ := walk_concat_ok.mp hwalk
  refine ⟨hlength, ?_⟩
  cases (walkStep_ok.mp hstep).2 with
  | here => exact absurd rfl hname.ne_here
  | up => exact absurd rfl hname.ne_up
  | into _ _ _ hshort _ => exact hshort

/-- **What lies right in a directory is found by its name**, as it was found before if that was in
another tree. -/
theorem Finds.again {found : Entry} {other : List String}
    (h : t.Finds (directory ++ "/" ++ name) other found)
    (hdirectory : t'.Finds directory target .directory)
    (hentry : FileTree.entry? t' (target ++ [name]) = some entry) :
    t'.Finds (directory ++ "/" ++ name) (target ++ [name]) entry := by
  obtain ⟨hlength, hshort⟩ := h.short hbase hname
  have hsame : Frame (fun _ => False) t' t' := .refl t'
  exact hsame.finds_place (hdirectory.placed hbase hname hlength hshort) hentry

/-- A file that is found behind a directory is deleted by the path that found it. -/
theorem Finds.at (h : t.Finds (directory ++ "/" ++ name) target entry) :
    t.At (directory ++ "/" ++ name) target := by
  obtain ⟨hlength, hshort⟩ := h.short hbase hname
  obtain ⟨place, hdirectory, rfl⟩ := h.of_behind hbase hname
  exact ⟨place, name, hdirectory.placed hbase hname hlength hshort, rfl⟩

end Behind

/-- A file behind a directory lies right in it. -/
theorem At.eq_concat {other : List String} (hat : t.At (directory ++ "/" ++ name) target)
    (hfile : t.entry? target ≠ some .directory) (hsettled : t.Finds directory other .directory)
    (hname : IsName name) : target = other ++ [name] := by
  obtain ⟨place, last, hplace, rfl⟩ := hat
  by_cases hnul : '\x00' ∈ directory.toList
  · exact absurd ((hsettled.leads.behind hnul name).isDirectory_place hplace) hfile
  · obtain ⟨_, heq, hother⟩ := place_behind ⟨hsettled.leads.ne_empty, hnul⟩ hname hplace
    cases heq
    rw [hother.place_unique hsettled]

/-- A directory that is there is not made. -/
theorem Finds.ensureDirectories (h : t.Finds path target entry) (hne : path ≠ "") :
    t.ensureDirectories path = (.ok (), t) := by
  unfold FileTree.ensureDirectories
  rw [if_neg hne, ensurePath, String.ofList_toList]
  unfold check
  rw [h.resolves]

/-- What was deleted was there, at the place of its path. -/
theorem deleteFile_ok (h : t.deleteFile path = (.ok (), t')) :
    ∃ target entry, t.At path target ∧ t.entry? target = some entry ∧ entry ≠ .directory
      ∧ t' = t.remove target := by
  unfold FileTree.deleteFile unlink at h
  cases hplace : t.place path with
  | error e =>
    rw [hplace] at h
    cases h
  | ok place =>
    obtain ⟨directory, last, slashed⟩ := place
    rw [hplace] at h
    cases last with
    | root | here | up => cases h
    | name name =>
      simp only at h
      cases hentry : t.entry? (directory ++ [name]) with
      | none =>
        rw [hentry] at h
        cases h
      | some entry =>
        rw [hentry] at h
        cases entry with
        | directory => cases h
        | file | device =>
          cases slashed with
          | true => cases h
          | false =>
            cases h
            exact ⟨_, _, ⟨directory, name, hplace, rfl⟩, hentry, nofun, rfl⟩

end FileTree
end PageRegions
