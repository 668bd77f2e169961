import PageRegions.Proofs.Memory.Mapping

/-!
# Announcing chunks and shutting down

What the two ends of a provider's life do: the mappings are gone after each, and of files only some
are deleted. A provider that was announced has found its directory, and so if the text of that has a
NUL byte no chunk is mapped next (`plain_of_next`).
-/

set_option autoImplicit false

namespace PageRegions
namespace Provider

open Text

variable {p : Provider} {h k : Host}

/-! ## Announcing -/

/-- What deleting a file of the directory keeps, and noting that, is kept when stale ones are
deleted. -/
theorem deleteStale_keeps {I : Host → Prop} {directory : String} {names : List String}
    (hdelete : ∀ h, ∀ name ∈ names, I h → I (h.deleteFile (directory ++ "/" ++ name)).2)
    (hnote : ∀ h level text, I h → I (h.note level text)) (hI : I h) :
    I (deleteStale directory names h).2 := by
  induction names generalizing h with
  | nil => exact hI
  | cons name names ih =>
    have hmore := fun h other hother => hdelete h other (List.mem_cons_of_mem name hother)
    unfold deleteStale
    split
    · have hdeleted := hdelete h name List.mem_cons_self hI
      generalize h.deleteFile (directory ++ "/" ++ name) = out at hdeleted
      obtain ⟨_ | _, k⟩ := out
      · exact hdeleted
      · exact ih hmore (hnote _ _ _ hdeleted)
    · exact ih hmore hI

theorem prepare_keeps {I : Host → Prop} {directory : String}
    (hensure : ∀ h, I h → I (h.ensureDirectories directory).2)
    (hdelete : ∀ h path, I h → I (h.deleteFile path).2)
    (hnote : ∀ h level text, I h → I (h.note level text)) (hI : I h) :
    I (prepare directory h).2 := by
  have hensured := hensure h hI
  unfold prepare
  generalize h.ensureDirectories directory = out at hensured
  obtain ⟨_ | _, k⟩ := out
  · exact hensured
  · simp only
    split
    · exact hensured
    · exact deleteStale_keeps (fun h name _ => hdelete h _) hnote hensured

theorem prepare_later (directory : String) (h : Host) : h.Later (prepare directory h).2 :=
  prepare_keeps (fun k hk => hk.trans (k.later_ensureDirectories directory))
    (fun k path hk => hk.trans (k.later_deleteFile path))
    (fun k level text hk => hk.trans (k.later_note level text)) (.refl h)

/-- In a directory that the host does not see whole nothing can be deleted. So nothing was, for want
of files to delete. -/
theorem deleteStale_unseen {directory : String} (hnul : '\x00' ∈ directory.toList)
    (hleads : h.files.Leads directory) {names : List String}
    (hok : deleteStale directory names h = (.ok (), k)) :
    k = h ∧ names.filter isFileName = [] := by
  induction names with
  | nil =>
    cases hok
    exact ⟨rfl, rfl⟩
  | cons name names ih =>
    unfold deleteStale at hok
    split at hok
    · obtain ⟨e, hunlink⟩ := (hleads.behind hnul name).unlink
      unfold Host.deleteFile FileTree.deleteFile at hok
      rw [hunlink] at hok
      cases hok
    · next hother =>
      rw [List.filter_cons_of_neg hother]
      exact ih hok

theorem prepare_leads {directory : String} (hnul : '\x00' ∈ directory.toList)
    (hok : prepare directory h = (.ok (), k)) : k.files.Leads directory := by
  unfold prepare at hok
  split at hok
  · cases hok
  · next h₁ _ =>
    split at hok
    · cases hok
    · next names hlisting =>
      have hleads : h₁.files.Leads directory := FileTree.leads_of_listing hlisting
      rw [(deleteStale_unseen hnul hleads hok).1]
      exact hleads

/-- What announcing chunks can end in: nothing is mapped, or nothing about the provider is
changed. -/
inductive Announcement (p : Provider) (sizes : List UInt64) (h : Host) :
    Except Fault Unit × Provider × Host → Prop
  | announced (q : Provider) (k : Host) (backing : q.backing = p.backing)
      (chunks : q.chunks = sizes) (mappings : q.mappings = []) (later : h.Later k)
      (leads : ∀ directory, p.backing = .files directory → '\x00' ∈ directory.toList →
        k.files.Leads directory) :
      Announcement p sizes h (.ok (), q, k)
  | failed (fault : Fault) (k : Host) (later : h.Later k) :
      Announcement p sizes h (.error fault, p, k)

theorem announce_announcement (p : Provider) (sizes : List UInt64) (h : Host) :
    Announcement p sizes h (p.announce sizes h) := by
  unfold announce
  cases hbacking : p.backing with
  | anonymous =>
    exact .announced _ h hbacking.symm rfl rfl (.refl h) (by rw [hbacking]; exact nofun)
  | files directory =>
    have hprepared := prepare_later directory h
    have hleads : ∀ k, '\x00' ∈ directory.toList → prepare directory h = (.ok (), k) →
        k.files.Leads directory := fun _ => prepare_leads
    simp only
    generalize prepare directory h = out at hprepared hleads
    obtain ⟨fault | _, k⟩ := out
    · exact .failed fault k hprepared
    · refine .announced _ k hbacking.symm rfl rfl hprepared fun other hother hnul => ?_
      rw [hbacking] at hother
      cases hother
      exact hleads k hnul rfl

/-- **A provider that maps a chunk right after it was announced has a directory that the host sees
whole.** -/
theorem plain_of_next {sizes : List UInt64} {q r : Provider} {h' : Host} {mapping : Mapping}
    (hannounce : p.announce sizes h = (.ok (), q, h')) (hnext : q.next h' = (.ok mapping, r, k)) :
    q.Plain := by
  have hannounced := p.announce_announcement sizes h
  have hmapped := q.next_next h'
  rw [hannounce] at hannounced
  rw [hnext] at hmapped
  cases hannounced with
  | announced _ _ hbacking _ _ _ hleads =>
    cases hmapped with
    | mapped _ _ _ _ _ _ _ _ _ _ _ hseen =>
      intro directory hfiles hnul
      exact hseen directory hfiles (hleads directory (hbacking.symm.trans hfiles) hnul) hnul

/-! ## Shutting down -/

theorem deleteAll_keeps {I : Host → Prop} {paths : List String}
    (hdelete : ∀ h, ∀ path ∈ paths, I h → I (h.deleteFile path).2)
    (hnote : ∀ h level text, I h → I (h.note level text)) (hI : I h) : I (deleteAll paths h).2 := by
  induction paths generalizing h with
  | nil => exact hI
  | cons path paths ih =>
    have hmore := fun h other hother => hdelete h other (List.mem_cons_of_mem path hother)
    have hdeleted := hdelete h path List.mem_cons_self hI
    unfold deleteAll
    generalize h.deleteFile path = out at hdeleted
    obtain ⟨_ | _, k⟩ := out
    · exact ih hmore (hnote _ _ _ hdeleted)
    · exact ih hmore hdeleted

theorem deleteAll_later (paths : List String) (h : Host) : h.Later (deleteAll paths h).2 :=
  deleteAll_keeps (fun k path _ hk => hk.trans (k.later_deleteFile path))
    (fun k level text hk => hk.trans (k.later_note level text)) (.refl h)

/-- Shutting down leaves no mapping, whether it fails or not. -/
theorem shutdown_cases (p : Provider) (h : Host) :
    (p.shutdown h).2.1.mappings = [] ∧ (p.shutdown h).2.1.chunks = p.chunks
      ∧ h.Later (p.shutdown h).2.2 := by
  unfold shutdown
  split
  · exact ⟨rfl, rfl, .refl h⟩
  · exact ⟨rfl, rfl, deleteAll_later p.files h⟩

end Provider
end PageRegions
