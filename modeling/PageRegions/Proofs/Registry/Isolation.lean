import Mathlib.Data.List.Forall2
import PageRegions.Proofs.Options.Accepted
import PageRegions.Proofs.Region.SwapFiles
import PageRegions.Proofs.Registry.Activation

/-!
# Regions with swap files on one host

The regions of a registry share a tree of files, and the files of chunks have the same names in each
directory. So two regions stay out of each other's way just if the directories for their swap files
are different places (`activate_isolates`). Then no file is mapped by both, and whatever is asked of
one of them, the files of the other are left alone. The texts of the directories may differ all the
same without that being so: what counts is where they lead.

Nothing in the settings sees to it. Two regions with one swap path are accepted, and the region that
is started last deletes the file that the other one has mapped
(`activate_deletes_shared_swap_file`).
-/

set_option autoImplicit false

namespace PageRegions

open FileTree

namespace Region

/-- What the pages of a region are backed by. -/
def backing (r : Region) : Backing := r.store.memory.provider.backing

/-- The files of the chunks that a region has mapped. -/
def swapFiles (r : Region) : List String := r.store.memory.provider.files

def chunks (r : Region) : List Mapping := r.store.memory.provider.mappings

end Region

namespace Registry

/-- A registry and its host, after calls of its regions. Between them the host may change in
whatever has nothing to do with files. -/
inductive Used (first : Registry) (host : Host) : Registry → Host → Prop
  | first : Used first host first host
  | call (name : String) (c : RegionCall) {g : Registry} {h : Host} (before : Used first host g h) :
      Used first host (g.onRegion name (fun r h => r.perform h c) h).2.1
        (g.onRegion name (fun r h => r.perform h c) h).2.2
  | deactivate {g : Registry} {h : Host} (before : Used first host g h) :
      Used first host (g.deactivate h).1 (g.deactivate h).2
  | outside (k : Host) {g : Registry} {h : Host} (before : Used first host g h)
      (same : k.files = h.files) : Used first host g k

/-- The regions of a registry do not meet in the tree of files. -/
structure Isolated (g : Registry) (h : Host) : Prop where
  /-- Each chunk that a region has mapped has a file, and that is the one that is mapped. -/
  backed : ∀ r ∈ g.regions, r.options.swapPath ≠ "" →
    List.Forall₂ (fun path m => m.InFile h.files path) r.swapFiles r.chunks
  /-- No file is mapped by two regions. -/
  apart : ∀ r ∈ g.regions, ∀ s ∈ g.regions, r.name ≠ s.name →
    ∀ path ∈ r.swapFiles, ∀ other ∈ s.swapFiles,
      path ≠ other ∧ h.files.resolve path ≠ h.files.resolve other
  /-- Whatever is asked of one region, the files of the others are left alone. -/
  spared : ∀ r ∈ g.regions, ∀ name, r.name ≠ name → ∀ (c : RegionCall), ∀ path ∈ r.swapFiles,
    ∀ target entry, h.files.Finds path target entry →
      (g.onRegion name (fun r h => r.perform h c) h).2.2.files.Finds path target entry

/-- The directories for swap files of different regions are different places. -/
def SwapsApart (g : Registry) (t : FileTree) : Prop :=
  ∀ r ∈ g.regions, ∀ s ∈ g.regions, r.name ≠ s.name →
    r.options.swapPath ≠ "" → s.options.swapPath ≠ "" →
      t.resolve (g.options.swapDirectory r.options) ≠ t.resolve (g.options.swapDirectory s.options)

instance (g : Registry) (t : FileTree) : Decidable (g.SwapsApart t) :=
  inferInstanceAs (Decidable (∀ r ∈ g.regions, ∀ s ∈ g.regions, r.name ≠ s.name →
    r.options.swapPath ≠ "" → s.options.swapPath ≠ "" →
      t.resolve (g.options.swapDirectory r.options)
        ≠ t.resolve (g.options.swapDirectory s.options)))

variable {g g' : Registry} {r s : Region} {h h' k : Host} {t t' : FileTree}

/-! ## Directories -/

theorem backing_eq_files {o : MemoryOptions} {region : RegionOptions} {directory : String} :
    o.backing region = .files directory
      ↔ region.swapPath ≠ "" ∧ directory = o.swapDirectory region := by
  unfold MemoryOptions.backing
  split
  · next hempty => exact ⟨nofun, fun h => absurd hempty h.1⟩
  · next hpath =>
    rw [Backing.files.injEq]
    exact ⟨fun heq => ⟨hpath, heq.symm⟩, fun h => h.2.symm⟩

theorem swapDirectory_ne_empty (o : MemoryOptions) (region : RegionOptions) :
    o.swapDirectory region ≠ "" := by
  unfold MemoryOptions.swapDirectory
  intro hempty
  have hlength := congrArg String.length hempty
  simp only [String.length_append] at hlength
  rw [show "/".length = 1 from rfl] at hlength
  simp only [String.length_empty] at hlength
  omega

/-- What is known of a region that was started. -/
structure Opened (o : MemoryOptions) (t : FileTree) (r : Region) : Prop where
  backing : r.backing = o.backing r.options
  named : r.backing.Named
  settled : r.backing.Settled t

theorem Opened.frame {o : MemoryOptions} {touched : List String → Prop} (hr : Opened o t r)
    (hframe : Frame touched t t') : Opened o t' r :=
  ⟨hr.backing, hr.named, fun directory hb =>
    let ⟨place, hplace⟩ := hr.settled directory hb
    ⟨place, hframe.finds hplace (Or.inl rfl)⟩⟩

/-- Two regions whose directories are different places claim nothing in common. -/
theorem SwapsApart.disjoint (hapart : g.SwapsApart t) (hr : r ∈ g.regions) (hs : s ∈ g.regions)
    (hne : r.name ≠ s.name) (hr' : Opened g.options t r) (hs' : Opened g.options t s)
    {target : List String} (hclaims : r.backing.Claims t target) :
    ¬ s.backing.Claims t target := by
  rintro ⟨other, name', hother, place', hplace', rfl⟩
  obtain ⟨directory, name, hdirectory, place, hplace, heq⟩ := hclaims
  obtain ⟨rfl, -⟩ := List.append_inj' heq rfl
  rw [hr'.backing, backing_eq_files] at hdirectory
  rw [hs'.backing, backing_eq_files] at hother
  obtain ⟨hpath, rfl⟩ := hdirectory
  obtain ⟨hpath', rfl⟩ := hother
  exact hapart r hr s hs hne hpath hpath' (hplace.resolves.trans hplace'.resolves.symm)

/-- Only the settings of the regions matter, and where their directories lead. -/
theorem SwapsApart.of_same (hapart : g.SwapsApart t) (hoptions : g'.options = g.options)
    (hback : ∀ x ∈ g'.regions, ∃ y ∈ g.regions, y.options = x.options)
    (hresolve : ∀ y ∈ g.regions, y.options.swapPath ≠ "" →
      t'.resolve (g.options.swapDirectory y.options)
        = t.resolve (g.options.swapDirectory y.options)) : g'.SwapsApart t' := by
  intro r hr s hs hne hpath hpath'
  obtain ⟨x, hx, hsame⟩ := hback r hr
  obtain ⟨y, hy, hsame'⟩ := hback s hs
  have hne' : x.name ≠ y.name := by
    unfold Region.name at hne ⊢
    rw [hsame, hsame']
    exact hne
  rw [← hsame] at hpath ⊢
  rw [← hsame'] at hpath' ⊢
  rw [hoptions, hresolve x hx hpath, hresolve y hy hpath']
  exact hapart x hx y hy hne' hpath hpath'

/-! ## What every call preserves -/

/-- Regions that have their files, in directories that are different places. -/
structure Separate (g : Registry) (t : FileTree) : Prop where
  proper : t.Proper
  opened : ∀ r ∈ g.regions, Opened g.options t r
  tidy : ∀ r ∈ g.regions, r.Tidy t
  apart : g.SwapsApart t

/-- What was claimed by a region in the end was so before: its directory was there. -/
theorem Opened.claims_before {o : MemoryOptions} {touched : List String → Prop}
    (hr : Opened o t r) (hframe : Frame touched t t') {target : List String}
    (hclaims : r.backing.Claims t' target) : r.backing.Claims t target := by
  obtain ⟨directory, name, hb, place, hplace, rfl⟩ := hclaims
  obtain ⟨before, hbefore⟩ := hr.settled directory hb
  have hsame := hplace.place_unique (hframe.finds hbefore (Or.inl rfl))
  exact ⟨directory, name, hb, before, hbefore, by rw [hsame]⟩

theorem mem_update {region x : Region} :
    x ∈ (g.update region).regions
      ↔ (x = region ∧ ∃ r ∈ g.regions, r.name = region.name)
        ∨ (x ∈ g.regions ∧ x.name ≠ region.name) := by
  simp only [update, List.mem_map]
  constructor
  · rintro ⟨r, hr, rfl⟩
    by_cases hname : r.name = region.name
    · rw [if_pos hname]
      exact Or.inl ⟨rfl, r, hr, hname⟩
    · rw [if_neg hname]
      exact Or.inr ⟨hr, hname⟩
  · rintro (⟨rfl, r, hr, hname⟩ | ⟨hx, hname⟩)
    · exact ⟨r, hr, if_pos hname⟩
    · exact ⟨x, hx, if_neg hname⟩

/-- What is claimed by a region after a call of another one is not touched by the call. -/
theorem Separate.untouched (hg : Separate g h.files) (hr : r ∈ g.regions) (hs : s ∈ g.regions)
    (hne : s.name ≠ r.name) (c : RegionCall) {target : List String}
    (hclaims : s.backing.Claims h.files target) :
    ¬ r.backing.Claims (r.perform h c).2.2.files target := by
  intro htouched
  have hkept := (hg.tidy r hr).perform hg.proper c
  have hbefore := (hg.opened r hr).claims_before hkept.memory.within htouched
  exact hg.apart.disjoint hs hr hne (hg.opened s hs) (hg.opened r hr) hclaims hbefore

/-- **The files of the other regions stay.** -/
theorem Separate.spares (hg : Separate g h.files) (hr : r ∈ g.regions) (hs : s ∈ g.regions)
    (hne : s.name ≠ r.name) (c : RegionCall) {path : String} (hpath : path ∈ s.swapFiles)
    {target : List String} {entry : Entry} (hfinds : h.files.Finds path target entry) :
    (r.perform h c).2.2.files.Finds path target entry := by
  have hkept := (hg.tidy r hr).perform hg.proper c
  have htidy : s.store.memory.Tidy h.files := hg.tidy s hs
  refine Frame.finds hkept.memory.within hfinds (Or.inr ?_)
  exact hg.untouched hr hs hne c (Provider.Held.claims htidy.held htidy.named hpath hfinds)

/-- The directory of a region leads where it led. -/
theorem Opened.resolve {o : MemoryOptions} {touched : List String → Prop} (hr : Opened o t r)
    (hframe : Frame touched t t') (hpath : r.options.swapPath ≠ "") :
    t'.resolve (o.swapDirectory r.options) = t.resolve (o.swapDirectory r.options) := by
  obtain ⟨place, hplace⟩ :=
    hr.settled _ (hr.backing.trans (backing_eq_files.mpr ⟨hpath, rfl⟩))
  exact (hframe.finds hplace (Or.inl rfl)).resolves.trans hplace.resolves.symm

/-- What one call of a region preserves. -/
theorem Separate.update (hg : Separate g h.files) (hr : r ∈ g.regions) (c : RegionCall) :
    Separate (g.update (r.perform h c).2.1) (r.perform h c).2.2.files := by
  have hkept := (hg.tidy r hr).perform hg.proper c
  have huntouched : ∀ s ∈ g.regions, s.name ≠ r.name → ∀ target,
      s.backing.Claims h.files target → ¬ r.backing.Claims (r.perform h c).2.2.files target :=
    fun s hs hne _ => hg.untouched hr hs hne c
  generalize r.perform h c = out at hkept huntouched
  obtain ⟨_, r', k⟩ := out
  have hframe : Frame _ h.files k.files := hkept.memory.within
  have hname : r'.name = r.name := congrArg RegionOptions.name hkept.options
  constructor
  case proper => exact hframe.proper hg.proper
  case opened =>
    intro x hx
    rcases mem_update.mp hx with ⟨rfl, -⟩ | ⟨hx, -⟩
    · obtain ⟨hbacking, hnamed, hsettled⟩ := (hg.opened r hr).frame hframe
      have hsame : x.backing = r.backing := hkept.memory.backing
      refine ⟨?_, hsame ▸ hnamed, hsame ▸ hsettled⟩
      rw [hsame, hbacking, hkept.options]
      rfl
    · exact (hg.opened x hx).frame hframe
  case tidy =>
    intro x hx
    rcases mem_update.mp hx with ⟨rfl, -⟩ | ⟨hx, hne⟩
    · exact hkept.memory.tidy
    · exact (hg.tidy x hx).frame hframe (huntouched x hx (hname ▸ hne))
  case apart =>
    have hsame : (g.update r').options = g.options := rfl
    refine hg.apart.of_same hsame ?_ ?_
    · intro x hx
      rcases mem_update.mp hx with ⟨rfl, -⟩ | ⟨hx, -⟩
      · exact ⟨r, hr, hkept.options.symm⟩
      · exact ⟨x, hx, rfl⟩
    · intro y hy hpath
      exact (hg.opened y hy).resolve hframe hpath

/-- **What every run preserves**, until there are no regions any more. -/
theorem Used.separate (hused : Used g h g' k) (hg : Separate g h.files) :
    g'.regions = [] ∨ Separate g' k.files := by
  induction hused with
  | first => exact Or.inr hg
  | @call name c g₁ h₁ _ ih =>
    unfold onRegion
    cases hlookup : g₁.lookup name with
    | error fault => exact ih
    | ok r =>
      have hr := (mem_of_lookup hlookup).1
      rcases ih with hnone | ih
      · rw [hnone] at hr
        cases hr
      · exact Or.inr (ih.update hr c)
  | deactivate _ ih =>
    unfold Registry.deactivate
    split
    · exact ih
    · exact Or.inl rfl
  | outside k' _ same ih =>
    rw [same]
    exact ih

/-! ## Isolation -/

theorem isolated_of_nil (hnone : g.regions = []) : Isolated g h where
  backed r hr := by
    rw [hnone] at hr
    cases hr
  apart r hr := by
    rw [hnone] at hr
    cases hr
  spared r hr := by
    rw [hnone] at hr
    cases hr

theorem Separate.isolated (hg : Separate g h.files) : Isolated g h where
  backed r hr hpath := by
    obtain ⟨-, hheld, -⟩ : r.store.memory.Tidy h.files := hg.tidy r hr
    have hb : r.backing = .files (g.options.swapDirectory r.options) :=
      (hg.opened r hr).backing.trans (backing_eq_files.mpr ⟨hpath, rfl⟩)
    refine List.forall₂_iff_get.mpr ⟨hheld.length_files hb, fun i hi hi' => ?_⟩
    exact hheld.live i _ _ (List.getElem?_eq_getElem hi) (List.getElem?_eq_getElem hi')
  apart r hr s hs hne path hpath other hother := by
    have htidy : r.store.memory.Tidy h.files := hg.tidy r hr
    have htidy' : s.store.memory.Tidy h.files := hg.tidy s hs
    obtain ⟨target, entry, hfinds⟩ := htidy.held.finds hpath
    obtain ⟨target', entry', hfinds'⟩ := htidy'.held.finds hother
    have hclaims := htidy.held.claims htidy.named hpath hfinds
    have hclaims' := htidy'.held.claims htidy'.named hother hfinds'
    have hne' : h.files.resolve path ≠ h.files.resolve other := by
      rw [hfinds.resolves, hfinds'.resolves]
      intro hsame
      cases hsame
      exact hg.apart.disjoint hr hs hne (hg.opened r hr) (hg.opened s hs) hclaims hclaims'
    exact ⟨fun hsame => hne' (congrArg _ hsame), hne'⟩
  spared r hr name hne c path hpath target entry hfinds := by
    unfold onRegion
    cases hlookup : g.lookup name with
    | error fault => exact hfinds
    | ok s =>
      obtain ⟨hs, hname⟩ := mem_of_lookup hlookup
      exact hg.spares hs hr (hname ▸ hne) c hpath hfinds

/-! ## Activating -/

theorem addRegion_frame {touched : List String → Prop} (g : Registry) (o : RegionOptions)
    (isDefault : Bool) (h : Host) :
    Frame touched h.files (g.addRegion o isDefault h).2.2.files := by
  unfold addRegion
  split
  · exact .refl _
  · simp only
    split
    · exact .refl _
    · next directory _ =>
      have hensured : Frame touched h.files _ := ensureDirectories_frame h.files directory
      rw [← Host.files_ensureDirectories] at hensured
      generalize h.ensureDirectories directory = out at hensured
      obtain ⟨_ | _, k⟩ := out <;> exact hensured

/-- There are no regions but those that were planned, and names stay as they are on the host. -/
theorem addPlanned_made {planned : List PlannedRegion}
    (hok : g.addPlanned planned h = (.ok (), g', h')) :
    (∀ r ∈ g'.regions, r ∈ g.regions ∨ ∃ p now, r = made g.options p now)
      ∧ (h.files.Proper → h'.files.Proper) := by
  induction planned generalizing g h with
  | nil =>
    cases hok
    exact ⟨fun r hr => Or.inl hr, fun hproper => hproper⟩
  | cons first rest ih =>
    have hframe : Frame (fun _ => False) h.files _ :=
      addRegion_frame g first.options first.isDefault (h.record first.notes)
    unfold addPlanned at hok
    rcases hadd : g.addRegion first.options first.isDefault (h.record first.notes)
      with ⟨_ | _, added, k⟩ <;> rw [hadd] at hok hframe
    · cases hok
    · obtain ⟨rfl, -⟩ := addRegion_ok hadd
      obtain ⟨hmade, hproper⟩ := ih hok
      refine ⟨fun r hr => ?_, fun hproper₀ => hproper (hframe.proper hproper₀)⟩
      rcases hmade r hr with hold | hnew
      · rcases List.mem_append.mp hold with hold | hone
        · exact Or.inl hold
        · exact Or.inr ⟨first, _, List.mem_singleton.mp hone⟩
      · exact Or.inr hnew

/-- What starting a region that was just made comes to. -/
structure JustOpened (o : MemoryOptions) (t : FileTree) (r : Region) (t' : FileTree) : Prop where
  opened : Opened o t' r
  tidy : r.Tidy t'
  within : r.backing.Within t t'
  first : ∀ directory, r.backing = .files directory →
    Provider.fileName directory 0 ∈ r.swapFiles

theorem made_start {o : MemoryOptions} {p : PlannedRegion} {now : UInt64}
    (hproper : h.files.Proper) (hok : (made o p now).start h = (.ok (), r, k)) :
    JustOpened o h.files r k.files := by
  obtain ⟨l, hstart, hfiles⟩ := Region.start_ok_memory hok
  have hplain := PageMemory.plain_of_start rfl hstart
  have htidy : (made o p now).Tidy h.files := {
    named := fun directory hb => by
      obtain ⟨-, heq⟩ := backing_eq_files.mp hb
      exact ⟨heq ▸ swapDirectory_ne_empty o p.options, hplain directory hb⟩
    held := Provider.held_of_empty rfl rfl
    idle := fun _ => rfl }
  have hkept := htidy.start hproper
  obtain ⟨hsettled, hmapped⟩ := PageMemory.Tidy.start_ok htidy hproper rfl hstart
  rw [hok] at hkept
  rw [← hfiles] at hsettled
  have hsame : r.backing = (made o p now).backing := hkept.memory.backing
  refine ⟨⟨?_, hkept.memory.tidy.named, hsame ▸ hsettled⟩, hkept.memory.tidy, ?_,
    fun directory hb => ?_⟩
  · rw [hsame, hkept.options]
    rfl
  · rw [hsame]
    exact hkept.memory.within
  · have hfiles' : r.swapFiles = r.backing.fileNames r.chunks.length := hkept.memory.tidy.held.files
    rw [hfiles', hb]
    exact List.mem_map.mpr ⟨0, List.mem_range.mpr (List.length_pos_iff.mpr hmapped), rfl⟩

theorem startEach_opened {o : MemoryOptions} {rs rs' : List Region}
    (hmade : ∀ r ∈ rs, ∃ p now, r = made o p now) (hproper : h.files.Proper)
    (hok : startEach rs h = (.ok (), rs', h')) :
    h'.files.Proper
      ∧ Frame (fun target => ∃ r ∈ rs', r.backing.Claims h'.files target) h.files h'.files
      ∧ (∀ r ∈ rs', Opened o h'.files r ∧ ∀ directory, r.backing = .files directory →
        Provider.fileName directory 0 ∈ r.swapFiles)
      ∧ ((rs'.map (·.name)).Nodup →
        (∀ r ∈ rs', ∀ s ∈ rs', r.name ≠ s.name → ∀ target, r.backing.Claims h'.files target →
          ¬ s.backing.Claims h'.files target) →
        ∀ r ∈ rs', r.Tidy h'.files) := by
  induction rs generalizing rs' h with
  | nil =>
    cases hok
    exact ⟨hproper, .refl _, List.forall_mem_nil _, fun _ _ => List.forall_mem_nil _⟩
  | cons first rest ih =>
    obtain ⟨⟨p, now, heq⟩, hmade'⟩ := List.forall_mem_cons.mp hmade
    unfold startEach at hok
    rcases hstart : first.start h with ⟨_ | _, r, k⟩ <;> rw [hstart] at hok
    · cases hok
    · rcases hmore : startEach rest k with ⟨result, more, k'⟩
      simp only [hmore] at hok
      cases hok
      obtain ⟨hopened, htidy, hwithin, hfirst⟩ := made_start hproper (heq ▸ hstart)
      obtain ⟨hproper', hframe, hall, hrest⟩ := ih hmade' (Frame.proper hwithin hproper) hmore
      refine ⟨hproper', ?_, ?_, ?_⟩
      · apply Frame.trans
        · apply Frame.mono hwithin
          intro target hclaims
          exact ⟨r, List.mem_cons_self, hclaims.mono hframe⟩
        · apply hframe.mono
          rintro target ⟨s, hs, hclaims⟩
          exact ⟨s, List.mem_cons_of_mem _ hs, hclaims⟩
      · exact List.forall_mem_cons.mpr ⟨⟨hopened.frame hframe, hfirst⟩, hall⟩
      · intro hnodup hdisjoint
        rw [List.map_cons, List.nodup_cons] at hnodup
        refine List.forall_mem_cons.mpr ⟨?_, hrest hnodup.2 fun x hx y hy =>
          hdisjoint x (List.mem_cons_of_mem _ hx) y (List.mem_cons_of_mem _ hy)⟩
        -- The regions that were started later claim other places.
        apply htidy.frame hframe
        rintro target hclaims ⟨s, hs, hclaims'⟩
        have hne : r.name ≠ s.name := fun hsame =>
          hnodup.1 (hsame ▸ List.mem_map_of_mem hs)
        exact hdisjoint r List.mem_cons_self s (List.mem_cons_of_mem _ hs) hne target
          (hclaims.mono hframe) hclaims'

/-- The regions of an active registry have found their directories and mapped a chunk. If the
directories are different places, each has kept its file while the others were started. -/
theorem activate_opened {m : Machine} {id : Nat} {o : MemoryOptions} (hproper : h.files.Proper)
    (hok : activate m id o h = (.ok g, h')) :
    (∀ r ∈ g.regions, Opened g.options h'.files r ∧ ∀ directory, r.backing = .files directory →
        Provider.fileName directory 0 ∈ r.swapFiles)
      ∧ (g.SwapsApart h'.files → Separate g h'.files) := by
  obtain ⟨-, added, k, started, k', hadd, hstart, rfl, rfl⟩ := activate_eq_ok hok
  obtain ⟨hoptions, hnodup, -⟩ :=
    addPlanned_ok (g := fresh id (o.check false).options) List.nodup_nil hadd
  obtain ⟨hmade, hkept⟩ := addPlanned_made hadd
  have hmade' : ∀ r ∈ added.regions, ∃ p now, r = made added.options p now := by
    intro r hr
    rcases hmade r hr with hnone | hr
    · cases hnone
    · rw [hoptions]
      exact hr
  obtain ⟨hproper', -, hopened, htidy⟩ := startEach_opened hmade' (hkept hproper) hstart
  refine ⟨hopened, fun hapart => ⟨hproper', fun r hr => (hopened r hr).1, ?_, hapart⟩⟩
  refine htidy ((startEach_ok hstart).1 ▸ hnodup) fun r hr s hs hne target => ?_
  exact hapart.disjoint hr hs hne (hopened r hr).1 (hopened s hs).1

/-- The first file of a region that is isolated lies in its directory. -/
theorem Isolated.resolve_first (hg : Isolated g h) (hr : r ∈ g.regions)
    (hopened : Opened g.options h.files r) (hpath : r.options.swapPath ≠ "")
    (hfirst : Provider.fileName (g.options.swapDirectory r.options) 0 ∈ r.swapFiles) :
    ∃ place, h.files.resolve (g.options.swapDirectory r.options) = .ok place
      ∧ h.files.resolve (Provider.fileName (g.options.swapDirectory r.options) 0)
        = .ok (place ++ [Provider.chunkName 0]) := by
  have hb := hopened.backing.trans (backing_eq_files.mpr ⟨hpath, rfl⟩)
  obtain ⟨hlength, hbacked⟩ := List.forall₂_iff_get.mp (hg.backed r hr hpath)
  obtain ⟨i, hi, hfile⟩ := List.mem_iff_getElem.mp hfirst
  obtain ⟨target, block, hfinds, -⟩ := hbacked i hi (hlength ▸ hi)
  rw [List.get_eq_getElem, hfile, Provider.fileName_eq] at hfinds
  obtain ⟨place, hplace, rfl⟩ :=
    hfinds.of_behind (hopened.named _ hb) (Provider.isName_chunkName 0)
  rw [Provider.fileName_eq]
  exact ⟨place, hplace.resolves, hfinds.resolves⟩

/-- **The regions of an active registry are isolated for good just if the directories for their swap
files are different places.** -/
theorem activate_isolates {m : Machine} {id : Nat} {o : MemoryOptions} (hproper : h.files.Proper)
    (hok : activate m id o h = (.ok g, h')) :
    g.SwapsApart h'.files ↔ ∀ g' k, Used g h' g' k → Isolated g' k := by
  obtain ⟨hopened, hseparate⟩ := activate_opened hproper hok
  constructor
  · intro hapart g' k hused
    rcases hused.separate (hseparate hapart) with hnone | hg
    · exact isolated_of_nil hnone
    · exact hg.isolated
  · intro hisolated r hr s hs hne hpath hpath' hsame
    have hstill := hisolated g h' .first
    have hfirst : ∀ x ∈ g.regions, x.options.swapPath ≠ "" →
        Provider.fileName (g.options.swapDirectory x.options) 0 ∈ x.swapFiles := fun x hx hxpath =>
      (hopened x hx).2 _ ((hopened x hx).1.backing.trans (backing_eq_files.mpr ⟨hxpath, rfl⟩))
    obtain ⟨place, hplace, hfile⟩ :=
      hstill.resolve_first hr (hopened r hr).1 hpath (hfirst r hr hpath)
    obtain ⟨place', hplace', hfile'⟩ :=
      hstill.resolve_first hs (hopened s hs).1 hpath' (hfirst s hs hpath')
    have hmeet : place = place' :=
      Except.ok.inj (hplace.symm.trans (hsame.trans hplace'))
    refine (hstill.apart r hr s hs hne _ (hfirst r hr hpath) _ (hfirst s hs hpath')).2 ?_
    rw [hfile, hfile', hmeet]

/-! ## Two regions with swap files -/

/-- The settings of a region of 10 to 20 MiB with swap files. -/
def swapping (name path : String) : RegionOptions :=
  { RegionOptions.usual ⟨0, 0⟩ name with
    initialSize := 10 * 1024 * 1024
    maxSize := 20 * 1024 * 1024
    swapPath := path }

/-- The settings of a registry with two such regions. -/
def twoSwapping (first second : String) : MemoryOptions :=
  { MemoryOptions.usual with regions := [swapping "a" first, swapping "b" second] }

/-- An empty host. -/
def emptyHost : Host := Host.fresh FileTree.scratch fun _ => 0

theorem emptyHost_proper : emptyHost.files.Proper := FileTree.scratch_proper

/-- With two swap paths the directories are different places. -/
theorem activate_isolates_two_directories :
    emptyHost.files.Proper
      ∧ ∃ g h, activate ⟨0, 0⟩ 0 (twoSwapping "one" "two") emptyHost = (.ok g, h)
        ∧ ∀ g' k, Used g h g' k → Isolated g' k := by
  have happart : ((activate ⟨0, 0⟩ 0 (twoSwapping "one" "two") emptyHost).1.toOption.map
      fun g => decide (g.SwapsApart
        (activate ⟨0, 0⟩ 0 (twoSwapping "one" "two") emptyHost).2.files)) = some true := by
    decide +kernel
  rcases hok : activate ⟨0, 0⟩ 0 (twoSwapping "one" "two") emptyHost with ⟨_ | g, h⟩ <;>
    rw [hok] at happart
  · cases happart
  · have happart' : g.SwapsApart h.files := of_decide_eq_true (Option.some.inj happart)
    exact ⟨emptyHost_proper, g, h, rfl, (activate_isolates emptyHost_proper hok).mp happart'⟩

/-- The files and chunks of a region that is looked up once a registry is active. -/
def swapsOf (out : Except Fault Registry × Host) (name : String) :
    Option (List String × List Mapping) :=
  (out.1.toOption.bind fun g => (g.lookup name).toOption).map fun r => (r.swapFiles, r.chunks)

theorem swapsOf_eq_some {name : String} {swaps : List String × List Mapping}
    (h : swapsOf (.ok g, k) name = some swaps) :
    ∃ r, g.lookup name = .ok r ∧ r.swapFiles = swaps.1 ∧ r.chunks = swaps.2 := by
  obtain ⟨r, hr, rfl⟩ := Option.map_eq_some_iff.mp h
  cases hlookup : g.lookup name with
  | error fault =>
    rw [Except.toOption, Option.bind_some, hlookup] at hr
    cases hr
  | ok s =>
    rw [Except.toOption, Option.bind_some, hlookup] at hr
    cases hr
    exact ⟨r, rfl, rfl, rfl⟩

/-- **With one swap path both regions map the same file**, and the one that was mapped first is
gone. -/
theorem activate_deletes_shared_swap_file :
    ((twoSwapping "swap" "swap").check false).result = .ok ()
      ∧ ∃ g h r s, activate ⟨0, 0⟩ 0 (twoSwapping "swap" "swap") emptyHost = (.ok g, h)
        ∧ g.lookup "a" = .ok r ∧ g.lookup "b" = .ok s
        ∧ r.swapFiles = ["swap/local/allocator-0.bin"]
        ∧ s.swapFiles = ["swap/local/allocator-0.bin"]
        ∧ ∀ m ∈ r.chunks, ¬ m.InFile h.files "swap/local/allocator-0.bin" := by
  have hfirst : swapsOf (activate ⟨0, 0⟩ 0 (twoSwapping "swap" "swap") emptyHost) "a"
      = some (["swap/local/allocator-0.bin"], [⟨some 6, 10485760⟩]) := by decide +kernel
  have hsecond : swapsOf (activate ⟨0, 0⟩ 0 (twoSwapping "swap" "swap") emptyHost) "b"
      = some (["swap/local/allocator-0.bin"], [⟨some 7, 10485760⟩]) := by decide +kernel
  have hfile : (activate ⟨0, 0⟩ 0 (twoSwapping "swap" "swap") emptyHost).2.files.Finds
      "swap/local/allocator-0.bin" ["tmp", "session", "swap", "local", "allocator-0.bin"]
      (.file 7 10485760) := ⟨by decide +kernel, by decide +kernel⟩
  refine ⟨by decide +kernel, ?_⟩
  rcases hok : activate ⟨0, 0⟩ 0 (twoSwapping "swap" "swap") emptyHost with ⟨_ | g, h⟩ <;>
    rw [hok] at hfirst hsecond hfile
  · cases hfirst
  · obtain ⟨r, hr, hfiles, hchunks⟩ := swapsOf_eq_some hfirst
    obtain ⟨s, hs, hfiles', -⟩ := swapsOf_eq_some hsecond
    refine ⟨g, h, r, s, rfl, hr, hs, hfiles, hfiles', ?_⟩
    rintro m hm ⟨target, block, hfinds, hblock⟩
    rw [hchunks, List.mem_singleton] at hm
    subst hm
    cases hblock
    rw [hfinds.place_unique hfile] at hfinds
    cases hfinds.found.symm.trans hfile.found

end Registry
end PageRegions
