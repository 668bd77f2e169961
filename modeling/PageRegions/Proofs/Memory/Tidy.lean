import PageRegions.Proofs.Memory.Allocation
import PageRegions.Proofs.Memory.Lifetime
import PageRegions.Proofs.Memory.SwapFiles

/-!
# Page memory and its files

What page memory is asked for maps chunks, one after the other, or gives all of them back. Either
way it touches no file but its own, and the chunks that it has then have their files (`Tidy`). Page
memory that is not started has no chunks, and so there is nothing that starting it could lose.
-/

set_option autoImplicit false

namespace PageRegions
namespace PageMemory

/-- Page memory whose chunks have their files. -/
structure Tidy (m : PageMemory) (t : FileTree) : Prop where
  named : m.provider.backing.Named
  held : m.provider.Held t
  idle : m.started = false → m.provider.mappings = []

/-- What a call does to page memory that is tidy. -/
structure KeptFiles (m : PageMemory) (t : FileTree) (m' : PageMemory) (t' : FileTree) : Prop where
  backing : m'.provider.backing = m.provider.backing
  within : m.provider.backing.Within t t'
  tidy : m'.Tidy t'

variable {m m' m'' : PageMemory} {t t' t'' : FileTree} {h k : Host}

theorem Tidy.refl (hm : m.Tidy t) : KeptFiles m t m t := ⟨rfl, .refl t, hm⟩

theorem KeptFiles.trans (h : KeptFiles m t m' t') (h' : KeptFiles m' t' m'' t'') :
    KeptFiles m t m'' t'' where
  backing := h'.backing.trans h.backing
  within := h.within.trans (h.backing ▸ h'.within)
  tidy := h'.tidy

/-- Of page memory only its provider matters, and whether it is started. -/
theorem Tidy.of_tended (hm : m.Tidy t) (htended : m.provider.Tended t m'.provider t')
    (hidle : m'.started = false → m'.provider.mappings = []) : KeptFiles m t m' t' where
  backing := htended.backing
  within := htended.within
  tidy := ⟨htended.backing ▸ hm.named, htended.held, hidle⟩

/-- Page memory stays tidy when others touch the files that it does not claim. -/
theorem Tidy.frame {touched : List String → Prop} (hm : m.Tidy h.files)
    (hframe : FileTree.Frame touched h.files k.files)
    (hout : ∀ target, m.provider.backing.Claims h.files target → ¬ touched target) :
    m.Tidy k.files where
  named := hm.named
  held := hm.held.frame hframe fun _ hpath target _ hfinds =>
    hout target (hm.held.claims hm.named hpath hfinds)
  idle := hm.idle

/-! ## Mapping segments -/

theorem mapNext_provider (m : PageMemory) (h : Host) :
    (m.mapNext h).2.1.provider = (m.provider.next h).2.1
      ∧ (m.mapNext h).2.1.started = m.started ∧ (m.mapNext h).2.2 = (m.provider.next h).2.2 := by
  unfold mapNext
  rcases m.provider.next h with ⟨_ | _, p, k⟩ <;> exact ⟨rfl, rfl, rfl⟩

theorem mapNext_tended (hheld : m.provider.Held h.files) (hnamed : m.provider.backing.Named) :
    m.provider.Tended h.files (m.mapNext h).2.1.provider (m.mapNext h).2.2.files := by
  obtain ⟨hprovider, -, hhost⟩ := m.mapNext_provider h
  rw [hprovider, hhost]
  exact hheld.next hnamed

theorem mapUntilUnused_tended (hheld : m.provider.Held h.files)
    (hnamed : m.provider.backing.Named) :
    m.provider.Tended h.files (m.mapUntilUnused h).2.1.provider (m.mapUntilUnused h).2.2.files
      ∧ (m.mapUntilUnused h).2.1.started = m.started := by
  fun_induction m.mapUntilUnused h with
  | case1 m h hunused => exact ⟨hheld.refl, rfl⟩
  | case2 m h hfull fault m₁ h₁ hnext =>
    have htended := mapNext_tended hheld hnamed
    have hstarted := (m.mapNext_provider h).2.1
    rw [hnext] at htended hstarted
    exact ⟨htended, hstarted⟩
  | case3 m h hfull m₁ h₁ hnext ih =>
    have htended := mapNext_tended hheld hnamed
    have hstarted := (m.mapNext_provider h).2.1
    rw [hnext] at htended hstarted
    obtain ⟨hmore, hstarted'⟩ := ih htended.held (htended.backing ▸ hnamed)
    exact ⟨htended.trans hmore, hstarted'.trans hstarted⟩

/-! ## Calls -/

theorem mark_files (m : PageMemory) (page : PageId) (h : Host) :
    (m.mark page h).files = h.files := by
  unfold mark
  split <;> rfl

theorem Tidy.allocate (hm : m.Tidy h.files) :
    KeptFiles m h.files (m.allocate h).2.1 (m.allocate h).2.2.files := by
  unfold PageMemory.allocate
  split
  · exact hm.refl
  · next hstarted =>
    rw [Bool.not_eq_true', Bool.not_eq_false] at hstarted
    split
    · next page more _ =>
      rw [handOut, mark_files]
      exact ⟨rfl, .refl _, hm.named, hm.held, hm.idle⟩
    · obtain ⟨htended, hsame⟩ := mapUntilUnused_tended hm.held hm.named
      have hrunning := hsame.trans hstarted
      generalize m.mapUntilUnused h = out at htended hrunning
      have hkept : KeptFiles m h.files out.2.1 out.2.2.files :=
        hm.of_tended htended fun hstopped => absurd (hrunning.symm.trans hstopped) nofun
      obtain ⟨fault | _, m', k⟩ := out
      · simp only
        split <;> exact hkept
      · simp only [handOut, mark_files]
        exact ⟨hkept.backing, hkept.within, hkept.tidy.named, hkept.tidy.held, hkept.tidy.idle⟩

theorem Tidy.free (hm : m.Tidy h.files) (page : PageId) :
    KeptFiles m h.files (m.free page h).2.1 (m.free page h).2.2.files := by
  unfold PageMemory.free
  split
  · exact hm.refl
  · exact ⟨rfl, .refl _, hm.named, hm.held, hm.idle⟩

theorem Tidy.stop (hm : m.Tidy h.files) :
    KeptFiles m h.files (m.stop h).2.1 (m.stop h).2.2.files := by
  unfold PageMemory.stop
  split
  · exact hm.refl
  · obtain ⟨htended, hmappings⟩ := hm.held.shutdown hm.named
    generalize m.provider.shutdown h = out at htended hmappings
    exact hm.of_tended htended fun _ => hmappings

/-- A start that fails gives back what was mapped. -/
theorem Tidy.giveUp {q : Provider} (hm : m.Tidy t) (hq : m.provider.Tended t q h.files) :
    m.provider.Tended t (q.shutdown h).2.1 (q.shutdown h).2.2.files
      ∧ (q.shutdown h).2.1.mappings = [] := by
  obtain ⟨htended, hmappings⟩ := hq.held.shutdown (hq.backing ▸ hm.named)
  exact ⟨hq.trans htended, hmappings⟩

theorem Tidy.start (hm : m.Tidy h.files) (hproper : h.files.Proper) :
    KeptFiles m h.files (m.start h).2.1 (m.start h).2.2.files := by
  unfold PageMemory.start
  split
  · exact hm.refl
  · next hstopped =>
    rw [Bool.not_eq_true] at hstopped
    obtain ⟨hannounced, -⟩ := hm.held.announce hm.named (hm.idle hstopped) hproper
      (Segments.sizes m.initialSize m.maxSize)
    generalize m.provider.announce (Segments.sizes m.initialSize m.maxSize) h = out
      at hannounced
    obtain ⟨fault | _, q, k⟩ := out
    · obtain ⟨htended, hmappings⟩ := hm.giveUp hannounced
      exact hm.of_tended htended fun _ => hmappings
    · have hmapped := hannounced.trans (mapNext_tended (m := { m with provider := q })
        hannounced.held (hannounced.backing ▸ hm.named))
      simp only
      generalize ({ m with provider := q } : PageMemory).mapNext k = out at hmapped
      obtain ⟨fault | _, m', l⟩ := out
      · obtain ⟨htended, hmappings⟩ := hm.giveUp hmapped
        exact hm.of_tended htended fun _ => hmappings
      · exact hm.of_tended hmapped nofun

/-- Page memory that was started announced its chunks and mapped the first. -/
theorem start_eq_ok (hstopped : m.started = false) (hok : m.start h = (.ok (), m', k)) :
    ∃ q l m₁ k₁, m.provider.announce (Segments.sizes m.initialSize m.maxSize) h = (.ok (), q, l)
      ∧ ({ m with provider := q } : PageMemory).mapNext l = (.ok (), m₁, k₁)
      ∧ m'.provider = m₁.provider ∧ k.files = k₁.files := by
  unfold PageMemory.start at hok
  rw [if_neg (by rw [hstopped]; exact Bool.false_ne_true)] at hok
  rcases hout : m.provider.announce (Segments.sizes m.initialSize m.maxSize) h with
    ⟨_ | _, q, l⟩ <;> rw [hout] at hok
  · cases hok
  · simp only at hok
    rcases hmap : ({ m with provider := q } : PageMemory).mapNext l with ⟨_ | _, m₁, k₁⟩ <;>
      rw [hmap] at hok <;> cases hok
    exact ⟨q, l, m₁, k₁, rfl, hmap, rfl, rfl⟩

/-- **Page memory that was started** found its directory and has mapped a chunk. -/
theorem Tidy.start_ok (hm : m.Tidy h.files) (hproper : h.files.Proper)
    (hstopped : m.started = false) (hok : m.start h = (.ok (), m', k)) :
    m.provider.backing.Settled k.files ∧ m'.provider.mappings ≠ [] := by
  obtain ⟨q, l, m₁, k₁, hout, hmap, hprovider, hfiles⟩ := start_eq_ok hstopped hok
  obtain ⟨hannounced, hready⟩ := hm.held.announce hm.named (hm.idle hstopped) hproper
    (Segments.sizes m.initialSize m.maxSize)
  rw [hout] at hannounced hready
  have hmapped := mapNext_tended (m := { m with provider := q }) hannounced.held
    (hannounced.backing ▸ hm.named)
  rw [hmap] at hmapped
  rw [hprovider, hfiles]
  refine ⟨(hannounced.backing ▸ hmapped.within).settled (hready rfl).2, ?_⟩
  unfold mapNext at hmap
  split at hmap
  · cases hmap
  · next mapping p₁ l₂ hnext =>
    cases hmap
    rw [(Provider.next_ok hnext).2.1]
    exact List.append_ne_nil_of_right_ne_nil _ (List.cons_ne_nil _ _)

/-- Page memory that was started maps files by names that the host sees. -/
theorem plain_of_start (hstopped : m.started = false) (hok : m.start h = (.ok (), m', k)) :
    m.provider.Plain := by
  obtain ⟨q, l, m₁, k₁, hout, hmap, -⟩ := start_eq_ok hstopped hok
  have hannounced := m.provider.announce_announcement (Segments.sizes m.initialSize m.maxSize) h
  rw [hout] at hannounced
  cases hannounced with
  | announced _ _ hbacking =>
    exact fun directory hb => plain_of_mapNext hout hmap directory (hbacking.trans hb)

end PageMemory
end PageRegions
