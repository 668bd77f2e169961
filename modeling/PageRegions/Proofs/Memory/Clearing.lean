import PageRegions.Proofs.Host.Listings
import PageRegions.Proofs.Memory.SwapFiles

/-!
# Clearing a directory of files

Two lists of files are worked off by a provider: the stale ones of its directory, before the first
chunk is mapped, and its own, when it is shut down. If all goes well, what is left either way is the
directory without the names of the list (`cleared`). It does go well for names that are those of
files, each once (`deleteAll_of_holds`, `deleteStale_of_holds`). The other way round, stale files that
were deleted without a failure are gone, all of them (`deleteStale_ok`).
-/

set_option autoImplicit false

namespace PageRegions

open FileTree

namespace FileTree

variable {t : FileTree} {directory name : String} {place : List String} {names : List String}

/-- A tree without some names of a directory. -/
def cleared (t : FileTree) (place : List String) : List String → FileTree
  | [] => t
  | name :: more => (t.remove (place ++ [name])).cleared place more

theorem children_cleared (t : FileTree) (place names : List String) :
    (t.cleared place names).children place = (t.children place).filter (· ∉ names) := by
  induction names generalizing t with
  | nil => simp [cleared]
  | cons name names ih =>
    rw [cleared, ih, children_remove, List.filter_filter]
    refine List.filter_congr fun other _ => ?_
    rw [← Bool.decide_and]
    refine decide_eq_decide.mpr ?_
    rw [List.mem_cons, not_or, and_comm]

/-- Whether names behind a directory are those of files, and paths lead there. -/
structure Holds (t : FileTree) (directory : String) (place names : List String) : Prop where
  settled : t.Finds directory place .directory
  files : ∀ name ∈ names, IsBase directory ∧ IsName name
    ∧ ∃ entry, t.Finds (directory ++ "/" ++ name) (place ++ [name]) entry ∧ entry ≠ .directory

/-- A file that a directory holds can be deleted, and what else it holds stays. -/
theorem Holds.delete (h : t.Holds directory place (name :: names)) (hnew : name ∉ names) :
    t.deleteFile (directory ++ "/" ++ name) = (.ok (), t.remove (place ++ [name]))
      ∧ (t.remove (place ++ [name])).Holds directory place names := by
  obtain ⟨hbase, hname, entry, hfinds, hfile⟩ := h.files name List.mem_cons_self
  have hframe : Frame (· = place ++ [name]) t (t.remove (place ++ [name])) := by
    refine frame_remove fun hdirectory => hfile ?_
    rw [hfinds.found] at hdirectory
    exact Option.some.inj hdirectory
  refine ⟨(hfinds.at hbase hname).deleteFile hfinds.found hfile,
    hframe.finds h.settled (Or.inl rfl), fun other hother => ?_⟩
  obtain ⟨hbase', hname', entry', hfinds', hfile'⟩ := h.files other (List.mem_cons_of_mem _ hother)
  refine ⟨hbase', hname', entry', hframe.finds hfinds' (Or.inr fun heq => hnew ?_), hfile'⟩
  rw [List.append_cancel_left_eq, List.cons.injEq] at heq
  exact heq.1 ▸ hother

/-- A directory stays when its files are deleted. -/
theorem Holds.cleared (h : t.Holds directory place names) (hnodup : names.Nodup) :
    (t.cleared place names).Finds directory place .directory := by
  induction names generalizing t with
  | nil => exact h.settled
  | cons name names ih =>
    obtain ⟨hnew, hmore⟩ := List.nodup_cons.mp hnodup
    exact ih (h.delete hnew).2 hmore

end FileTree

namespace Provider

variable {h k : Host} {directory : String} {place names : List String}

/-! ## Names that are those of files -/

theorem deleteFile_eq_of_files {h : Host} {path : String} {t : FileTree}
    (hfiles : h.files.deleteFile path = (.ok (), t)) :
    h.deleteFile path = (.ok (), { h with files := t }) := by
  unfold Host.deleteFile
  rw [hfiles]

/-- **All files of a list are deleted**, if the directory holds them. -/
theorem deleteAll_of_holds (hholds : h.files.Holds directory place names) (hnodup : names.Nodup) :
    (deleteAll (names.map fun name => directory ++ "/" ++ name) h).1 = .ok ()
      ∧ (deleteAll (names.map fun name => directory ++ "/" ++ name) h).2.files
        = h.files.cleared place names := by
  induction names generalizing h with
  | nil => exact ⟨rfl, rfl⟩
  | cons name names ih =>
    obtain ⟨hnew, hmore⟩ := List.nodup_cons.mp hnodup
    obtain ⟨hdeleted, hholds'⟩ := hholds.delete hnew
    rw [List.map_cons, deleteAll, deleteFile_eq_of_files hdeleted]
    exact ih (h := { h with files := h.files.remove (place ++ [name]) }) hholds' hmore

/-- Stale files that a directory holds can be deleted. -/
theorem deleteStale_of_holds (hholds : h.files.Holds directory place (names.filter isFileName))
    (hnodup : (names.filter isFileName).Nodup) : (deleteStale directory names h).1 = .ok () := by
  induction names generalizing h with
  | nil => rfl
  | cons name names ih =>
    unfold deleteStale
    split
    · next hfile =>
      rw [List.filter_cons_of_pos hfile] at hholds hnodup
      obtain ⟨hnew, hmore⟩ := List.nodup_cons.mp hnodup
      obtain ⟨hdeleted, hholds'⟩ := hholds.delete hnew
      rw [deleteFile_eq_of_files hdeleted]
      exact ih (h := Host.note { h with files := h.files.remove (place ++ [name]) } _ _) hholds' hmore
    · next hother =>
      rw [List.filter_cons_of_neg hother] at hholds hnodup
      exact ih hholds hnodup

/-! ## Files that were deleted -/

/-- **Stale files that were deleted are gone.** -/
theorem deleteStale_ok (hsettled : h.files.Finds directory place .directory)
    (hnames : ∀ name ∈ names, IsName name) (hok : deleteStale directory names h = (.ok (), k)) :
    k.files = h.files.cleared place (names.filter isFileName)
      ∧ k.files.Finds directory place .directory := by
  by_cases hnul : '\x00' ∈ directory.toList
  · obtain ⟨rfl, hnone⟩ := deleteStale_unseen hnul hsettled.leads hok
    rw [hnone]
    exact ⟨rfl, hsettled⟩
  have hbase : IsBase directory := ⟨hsettled.leads.ne_empty, hnul⟩
  induction names generalizing h with
  | nil =>
    cases hok
    exact ⟨rfl, hsettled⟩
  | cons name names ih =>
    obtain ⟨hname, hmore⟩ := List.forall_mem_cons.mp hnames
    unfold deleteStale at hok
    split at hok
    · next hfile =>
      rw [List.filter_cons_of_pos hfile, cleared]
      rcases hdeleted : h.files.deleteFile (directory ++ "/" ++ name) with ⟨fault | _, t⟩
      · unfold Host.deleteFile at hok
        rw [hdeleted] at hok
        cases hok
      · rw [deleteFile_eq_of_files hdeleted] at hok
        obtain ⟨target, entry, ⟨other, last, hplace, rfl⟩, hentry, hdirectory, rfl⟩ :=
          deleteFile_ok hdeleted
        obtain ⟨_, heq, hother⟩ := place_behind hbase hname hplace
        cases heq
        obtain rfl := hother.place_unique hsettled
        have hframe : Frame (· = other ++ [name]) h.files (h.files.remove (other ++ [name])) :=
          frame_remove fun hsame => hdirectory (Option.some.inj (hentry.symm.trans hsame))
        exact ih (h := Host.note { h with files := h.files.remove (other ++ [name]) } _ _)
          (hframe.finds hsettled (Or.inl rfl)) hmore hok
    · next hother =>
      rw [List.filter_cons_of_neg hother]
      exact ih hsettled hmore hok

end Provider
end PageRegions
