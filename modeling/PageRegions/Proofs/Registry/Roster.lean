import PageRegions.Proofs.Options.Rechecked
import PageRegions.Proofs.Registry.Isolation

/-!
# Which regions an active registry has

Nothing can go wrong in activating a registry with accepted settings but a directory that cannot be
made or a region that does not start (`Smooth`): names are never in each other's way. Then the
regions are those of the plan in its order (`Roster`). That there is one default region among them,
and only one, is not said in one place. The rules see to it that the name of the default region is
the usual one or one of the user's, and the plan makes a region if it is the usual one and no user
has it; in both cases one region is marked, and the marked one is the one of that name.

A call of a region may change all of it but its settings and its mark, and so what is said here
stays true of a registry in use, until it is deactivated. From then on it has no regions and refuses
every look-up, whatever else is asked (`Closed`).
-/

set_option autoImplicit false

namespace PageRegions

/-! ## What a call leaves of a region -/

namespace Region

/-- A region with the settings and the mark of another. -/
structure Namesake (first r : Region) : Prop where
  options : r.options = first.options
  isDefault : r.isDefault = first.isDefault

variable {first r : Region} {h : Host}

theorem Namesake.name (hr : Namesake first r) : r.name = first.name :=
  congrArg RegionOptions.name hr.options

theorem Namesake.evictPage (hr : Namesake first r) (h : Host) :
    Namesake first (r.evictPage h).2.1 := by
  unfold Region.evictPage
  split <;> exact { hr with }

theorem Namesake.ensureFreeSpace (hr : Namesake first r) (h : Host) :
    Namesake first (r.ensureFreeSpace h).2.1 :=
  ensureFreeSpace_keeps (I := fun r _ => Namesake first r) (fun _ h hr => hr.evictPage h)
    (fun _ _ _ hr => hr) hr

theorem Namesake.insertRow (hr : Namesake first r) (row : UInt32) (h : Host) :
    Namesake first (r.insertRow row h).2.1 :=
  insertRow_keeps (I := fun r _ => Namesake first r) (fun _ _ hr => { hr with })
    (hr.ensureFreeSpace h)

theorem Namesake.start (hr : Namesake first r) (h : Host) :
    Namesake first (r.start h).2.1 := by
  unfold Region.start
  split <;> exact { hr with }

theorem Namesake.stop (hr : Namesake first r) (h : Host) : Namesake first (r.stop h).2.1 := by
  unfold Region.stop
  split <;> exact { hr with }

theorem Namesake.removeRow (hr : Namesake first r) (page : PageId) (row : UInt32) :
    Namesake first (r.removeRow page row).2 := by
  unfold Region.removeRow
  rcases r.freeList.removeRow page row with ⟨_ | _, f⟩ <;> exact { hr with }

theorem Namesake.perform (hr : Namesake first r) (h : Host) (c : RegionCall) :
    Namesake first (r.perform h c).2.1 := by
  cases c with
  | start => exact hr.start h
  | stop => exact hr.stop h
  | ensure => exact hr.ensureFreeSpace h
  | evict => exact hr.evictPage h
  | insert row => exact hr.insertRow row h
  | remove page row => exact hr.removeRow page row
  | dropRows | touch | allocate | free | recycle | take | measure => exact { hr with }

/-- Starting a region leaves the metrics of it alone. -/
theorem start_metrics (r : Region) (h : Host) :
    (r.start h).2.1.store.metrics = r.store.metrics := by
  unfold start MeteredMemory.start
  simp only
  rcases r.store.memory.start h with ⟨_ | _, m, k⟩ <;> rfl

/-- A snapshot is of the region that the metrics are kept for. -/
theorem snapshot_name (r : Region) (directory : ListDirectory) (h : Host) :
    (r.snapshot directory h).1.name = r.store.metrics.name := by
  have hallocation : ∀ m : RegionMetrics, (m.allocationRate h.now).2.name = m.name := by
    intro m
    unfold RegionMetrics.allocationRate
    split <;> rfl
  have heviction : ∀ m : RegionMetrics, (m.evictionRate h.now).2.name = m.name := by
    intro m
    unfold RegionMetrics.evictionRate
    split <;> rfl
  have hfill : ∀ m : RegionMetrics, (m.fillFactor directory).2.name = m.name := by
    intro m
    unfold RegionMetrics.fillFactor
    split
    · rfl
    split
    · rfl
    simp only
    split
    · rfl
    split
    · rfl
    split <;> rfl
  exact (hfill _).trans ((heviction _).trans (hallocation _))

end Region

/-! ## Names of planned regions -/

namespace MemoryOptions

/-- Settings in which no two regions have one name, whether a default region is made or not. -/
structure WellNamed (o : MemoryOptions) : Prop where
  system_ne_usual : o.systemName ≠ usualRegionName
  unreserved : o.systemName ∉ o.names
  distinct : o.names.Nodup
  defaultNamed : o.defaultRegionName = usualRegionName ∨ o.defaultRegionName ∈ o.names

theorem Lawful.wellNamed {o : MemoryOptions} (h : o.Lawful) : o.filled.WellNamed where
  system_ne_usual := h.system_ne_usual
  unreserved := by
    rw [filled_names]
    intro hmem
    obtain ⟨region, hregion, hname⟩ := List.mem_map.mp hmem
    exact (h.regions region hregion).unreserved hname
  distinct := filled_names.symm ▸ h.distinct
  defaultNamed := filled_names.symm ▸ h.defaultNamed

variable {m : Machine} {o : MemoryOptions}

theorem WellNamed.lacksDefault (h : o.WellNamed) :
    o.lacksDefault = true ↔ o.defaultRegionName = usualRegionName ∧ usualRegionName ∉ o.names := by
  have hall : (o.regions.all fun region => region.name ≠ usualRegionName) = true
      ↔ usualRegionName ∉ o.names := by
    simp [names, List.all_eq_true]
  have hempty : o.regions = [] → o.defaultRegionName = usualRegionName
      ∧ usualRegionName ∉ o.names := by
    intro hnone
    have hnames : o.names = [] := by rw [names, hnone, List.map_nil]
    rw [hnames]
    refine ⟨h.defaultNamed.resolve_right ?_, List.not_mem_nil⟩
    rw [hnames]
    exact List.not_mem_nil
  unfold MemoryOptions.lacksDefault
  rw [Bool.or_eq_true, Bool.and_eq_true, decide_eq_true_eq, hall, List.isEmpty_iff]
  exact or_iff_right_of_imp hempty

/-- The names of planned regions, in their order. -/
def planNames (m : Machine) (o : MemoryOptions) : List String :=
  (o.plan m).map (·.options.name)

theorem plan_map_options : (o.plan m).map (·.options)
    = (if o.lacksDefault then [o.defaultRegion m] else []) ++ o.regions ++ [o.systemRegion m] := by
  have huser : (o.regions.map o.planUser).map (·.options) = o.regions := by
    rw [List.map_map]
    exact List.map_id _
  unfold plan
  rw [List.map_append, List.map_append, huser]
  cases o.lacksDefault <;> rfl

theorem planNames_eq : o.planNames m
    = (if o.lacksDefault then [usualRegionName] else []) ++ o.names ++ [o.systemName] := by
  have hoptions := congrArg (List.map RegionOptions.name) (plan_map_options (m := m) (o := o))
  rw [List.map_map, List.map_append, List.map_append] at hoptions
  refine Eq.trans hoptions ?_
  cases o.lacksDefault <;> rfl

/-- **No two planned regions have one name.** -/
theorem WellNamed.planNames_nodup (h : o.WellNamed) : (o.planNames m).Nodup := by
  rw [planNames_eq]
  cases hlacks : o.lacksDefault with
  | false =>
    rw [if_neg Bool.false_ne_true, List.nil_append, ← List.concat_eq_append]
    exact h.distinct.concat h.unreserved
  | true =>
    obtain ⟨-, hnew⟩ := h.lacksDefault.mp hlacks
    rw [if_pos rfl, List.singleton_append, ← List.concat_eq_append]
    refine (List.nodup_cons.mpr ⟨hnew, h.distinct⟩).concat ?_
    rw [List.mem_cons, not_or]
    exact ⟨h.system_ne_usual, h.unreserved⟩

/-- Of the user's regions, one is marked if the default region is among them, and else none. -/
theorem filter_planUser (hdistinct : o.names.Nodup) :
    (o.defaultRegionName ∉ o.names → (o.regions.map o.planUser).filter (·.isDefault) = [])
      ∧ (o.defaultRegionName ∈ o.names → ∃ region ∈ o.regions,
        region.name = o.defaultRegionName
          ∧ (o.regions.map o.planUser).filter (·.isDefault) = [o.planUser region]) := by
  unfold names at hdistinct ⊢
  have hmark : ∀ region, (o.planUser region).isDefault = true
      ↔ region.name = o.defaultRegionName := fun region => decide_eq_true_iff
  have hnone : ∀ regions : List RegionOptions, o.defaultRegionName ∉ regions.map (·.name) →
      (regions.map o.planUser).filter (·.isDefault) = [] := by
    intro regions hmem
    rw [List.filter_eq_nil_iff]
    rintro p hp hdefault
    obtain ⟨region, hregion, rfl⟩ := List.mem_map.mp hp
    exact hmem (List.mem_map.mpr ⟨region, hregion, (hmark region).mp hdefault⟩)
  refine ⟨hnone _, fun hmem => ?_⟩
  obtain ⟨region, hregion, hname⟩ := List.mem_map.mp hmem
  refine ⟨region, hregion, hname, ?_⟩
  obtain ⟨before, after, hsplit⟩ := List.append_of_mem hregion
  rw [hsplit, List.map_append, List.map_cons, List.nodup_append, hname] at hdistinct
  obtain ⟨-, hafter, hbefore⟩ := hdistinct
  rw [hsplit, List.map_append, List.map_cons, List.filter_append,
    List.filter_cons_of_pos ((hmark region).mpr hname), hnone after (List.nodup_cons.mp hafter).1,
    hnone before, List.nil_append]
  exact fun hthere => hbefore _ hthere _ List.mem_cons_self rfl

/-- **One planned region is marked as the default, and it has its name.** -/
theorem WellNamed.plan_default (h : o.WellNamed) :
    ∃ p, (o.plan m).filter (·.isDefault) = [p] ∧ p.options.name = o.defaultRegionName := by
  obtain ⟨hnone, hone⟩ := filter_planUser h.distinct
  unfold plan
  rw [List.filter_append, List.filter_append,
    List.filter_cons_of_neg (by exact Bool.false_ne_true), List.filter_nil, List.append_nil]
  cases hlacks : o.lacksDefault with
  | true =>
    obtain ⟨husual, hnew⟩ := h.lacksDefault.mp hlacks
    refine ⟨o.madeDefault m, ?_, husual.symm⟩
    rw [hnone (husual ▸ hnew)]
    rfl
  | false =>
    have hmem : o.defaultRegionName ∈ o.names := by
      refine h.defaultNamed.elim (fun husual => ?_) id
      by_contra hnew
      rw [h.lacksDefault.mpr ⟨husual, husual ▸ hnew⟩] at hlacks
      cases hlacks
    obtain ⟨region, -, hname, hfilter⟩ := hone hmem
    exact ⟨o.planUser region, hfilter, hname⟩

end MemoryOptions

namespace Registry

variable {m : Machine} {o : MemoryOptions} {g g' : Registry} {h h' k k' : Host}

/-! ## Activations in which nothing fails -/

/-- The directories for planned regions can be made in turn. -/
inductive Prepares (o : MemoryOptions) : List PlannedRegion → Host → Host → Prop
  | nil (h : Host) : Prepares o [] h h
  | anonymous {p : PlannedRegion} {rest : List PlannedRegion} {h k : Host}
      (backing : o.backing p.options = .anonymous) (more : Prepares o rest (h.record p.notes) k) :
      Prepares o (p :: rest) h k
  | files {p : PlannedRegion} {rest : List PlannedRegion} {h h₁ k : Host} {directory : String}
      (backing : o.backing p.options = .files directory)
      (made : (h.record p.notes).ensureDirectories directory = (.ok (), h₁))
      (more : Prepares o rest h₁ k) : Prepares o (p :: rest) h k

/-- Regions can be started in turn. -/
inductive Starts : List Region → Host → List Region → Host → Prop
  | nil (h : Host) : Starts [] h [] h
  | cons {r r' : Region} {rs rs' : List Region} {h h₁ k : Host}
      (start : r.start h = (.ok (), r', h₁)) (more : Starts rs h₁ rs' k) :
      Starts (r :: rs) h (r' :: rs') k

/-- With these settings every directory can be made and every region can be started. -/
def Smooth (m : Machine) (o : MemoryOptions) (h : Host) : Prop :=
  let checked := (o.check false).options
  let noted := (h.record (o.check false).notes).record checked.dump
  ∃ k rs k', Prepares checked (checked.plan m) noted k
    ∧ Starts ((checked.plan m).map (made checked · h.now)) k rs k'

/-! ## Making regions of new names -/

/-- Making a region whose name is new. -/
theorem addRegion_of_new {p : PlannedRegion} (hnew : ∀ r ∈ g.regions, r.name ≠ p.options.name) :
    g.addRegion p.options p.isDefault h
      = match g.options.backing p.options with
        | .anonymous => (.ok (), { g with regions := g.regions ++ [made g.options p h.now] }, h)
        | .files directory =>
          match h.ensureDirectories directory with
          | (.error fault, k) =>
            (.error (.swapDirectoryFailed p.options.name directory fault), g, k)
          | (.ok (), k) =>
            (.ok (), { g with regions := g.regions ++ [made g.options p h.now] }, k) := by
  have hany : ¬(g.regions.any fun r => r.name = p.options.name) = true := by
    rw [List.any_eq_true]
    rintro ⟨r, hr, hname⟩
    exact hnew r hr (of_decide_eq_true hname)
  unfold addRegion
  rw [if_neg hany]
  rfl

/-- Planned regions of names that differ from each other and from those that there are. -/
def Fits (g : Registry) (planned : List PlannedRegion) : Prop :=
  (g.regions.map (·.name) ++ planned.map (·.options.name)).Nodup

theorem Fits.new {p : PlannedRegion} {rest : List PlannedRegion} (hfits : g.Fits (p :: rest)) :
    ∀ r ∈ g.regions, r.name ≠ p.options.name := fun _ hr =>
  (List.nodup_append.mp hfits).2.2 _ (List.mem_map_of_mem hr) _ List.mem_cons_self

theorem Fits.next {p : PlannedRegion} {rest : List PlannedRegion} (hfits : g.Fits (p :: rest))
    (now : UInt64) : Fits { g with regions := g.regions ++ [made g.options p now] } rest := by
  unfold Fits at hfits ⊢
  rw [List.map_append, List.append_assoc]
  exact hfits

/-- **Regions of new names that differ from each other are never refused for their names.** -/
theorem Fits.addPlanned_ne_inUse {planned : List PlannedRegion} (hfits : g.Fits planned)
    (name : String) (h : Host) :
    (g.addPlanned planned h).1 ≠ .error (.regionNameInUse name) := by
  induction planned generalizing g h with
  | nil => nofun
  | cons p rest ih =>
    unfold addPlanned
    rw [addRegion_of_new hfits.new]
    cases g.options.backing p.options with
    | anonymous => exact ih (hfits.next _) _
    | files directory =>
      simp only
      rcases (h.record p.notes).ensureDirectories directory with ⟨fault | _, k⟩
      · nofun
      · exact ih (hfits.next _) _

/-- **Planned regions are made just if their directories can be.** -/
theorem Fits.addPlanned_ok_iff {planned : List PlannedRegion} (hfits : g.Fits planned) :
    g.addPlanned planned h = (.ok (), g', k)
      ↔ Prepares g.options planned h k
        ∧ g' = { g with regions := g.regions ++ planned.map (made g.options · h.now) } := by
  induction planned generalizing g h with
  | nil =>
    rw [List.map_nil, List.append_nil]
    constructor
    · intro hok
      cases hok
      exact ⟨.nil _, rfl⟩
    · rintro ⟨⟨⟩, rfl⟩
      rfl
  | cons p rest ih =>
    have hsplit : ∀ now, (g.regions ++ [made g.options p now]) ++ rest.map (made g.options · now)
        = g.regions ++ (p :: rest).map (made g.options · now) := fun now => by
      rw [List.append_assoc]
      rfl
    unfold addPlanned
    rw [addRegion_of_new hfits.new]
    cases hbacking : g.options.backing p.options with
    | anonymous =>
      refine (ih (hfits.next _)).trans ?_
      rw [hsplit]
      refine and_congr_left' ⟨.anonymous hbacking, ?_⟩
      rintro (⟨⟩ | ⟨-, hmore⟩ | ⟨hfiles, -, -⟩)
      · exact hmore
      · rw [hbacking] at hfiles
        cases hfiles
    | files directory =>
      simp only
      rcases hmade : (h.record p.notes).ensureDirectories directory with ⟨fault | _, h₁⟩
      · refine ⟨nofun, ?_⟩
        rintro ⟨⟨⟩ | ⟨hnone, -⟩ | ⟨hfiles, hok, -⟩, -⟩
        · rw [hbacking] at hnone
          cases hnone
        · rw [hbacking] at hfiles
          cases hfiles
          rw [hmade] at hok
          cases hok
      · have hnow : h₁.now = (h.record p.notes).now := by
          rw [← (show ((h.record p.notes).ensureDirectories directory).2 = h₁ by rw [hmade])]
          rfl
        refine (ih (hfits.next _)).trans ?_
        rw [hnow, hsplit]
        refine and_congr_left' ⟨.files hbacking hmade, ?_⟩
        rintro (⟨⟩ | ⟨hnone, -⟩ | ⟨hfiles, hok, hmore⟩)
        · rw [hbacking] at hnone
          cases hnone
        · rw [hbacking] at hfiles
          cases hfiles
          rw [hmade] at hok
          cases hok
          exact hmore

theorem startEach_ok_iff {rs rs' : List Region} :
    startEach rs h = (.ok (), rs', k) ↔ Starts rs h rs' k := by
  induction rs generalizing rs' h with
  | nil =>
    constructor
    · intro hok
      cases hok
      exact .nil _
    · rintro ⟨⟩
      rfl
  | cons r rest ih =>
    unfold startEach
    rcases hstart : r.start h with ⟨_ | _, r', h₁⟩
    · constructor
      · intro hok
        cases hok
      · rintro ⟨⟩
        next hok _ =>
          rw [hstart] at hok
          cases hok
    · simp only
      constructor
      · intro hok
        rcases hmore : startEach rest h₁ with ⟨result, more, h₂⟩
        rw [hmore] at hok
        cases hok
        exact .cons hstart (ih.mp hmore)
      · rintro ⟨⟩
        next hok hmore =>
          rw [hstart] at hok
          cases hok
          rw [ih.mpr hmore]

/-! ## What there is to find in a registry -/

/-- All look-ups of a name are answered, and all by what is of one region. -/
structure Finds (g : Registry) (name : String) (r : Region) : Prop where
  region : g.lookup name = .ok r
  freeList : g.freeListOf name = .ok r.freeList
  pool : g.poolOf name = .ok r.freeList
  snapshot : ∀ h, (g.snapshotOf name h).1 = .ok (r.snapshot g.directory h).1
  /-- The metrics are about the free list of the region. -/
  published : g.directory.publishes name = true
  fill : g.directory.fill name = r.freeList.fill

/-- All look-ups of a name are refused. -/
structure Refuses (g : Registry) (name : String) (fault : Fault) : Prop where
  region : g.lookup name = .error fault
  freeList : g.freeListOf name = .error fault
  pool : g.poolOf name = .error fault
  snapshot : ∀ h, (g.snapshotOf name h).1 = .error fault

theorem finds_of_lookup {name : String} {r : Region} (hlookup : g.lookup name = .ok r) :
    g.Finds name r := by
  have hactive : g.active = true := by
    by_contra hnot
    rw [lookup, if_pos (by simpa using hnot)] at hlookup
    cases hlookup
  have hfind : g.regions.find? (fun r => r.name = name) = some r := by
    unfold lookup at hlookup
    rw [hactive, if_neg (by decide)] at hlookup
    cases hfound : g.regions.find? (fun r => r.name = name) with
    | none =>
      rw [hfound] at hlookup
      cases hlookup
    | some found =>
      rw [hfound] at hlookup
      cases hlookup
      rfl
  obtain ⟨hr, hname⟩ := mem_of_lookup hlookup
  have hany : (g.regions.any fun r => r.name = name) = true :=
    List.any_eq_true.mpr ⟨r, hr, decide_eq_true hname⟩
  refine ⟨hlookup, ?_, ?_, fun h => ?_, ?_, ?_⟩
  · rw [freeListOf, hlookup]
    rfl
  · rw [poolOf, freeListOf, hlookup]
    rfl
  · rw [snapshotOf, hlookup]
  · simp only [directory, hactive, hany, Bool.and_self]
  · simp only [directory, hfind, Option.map_some, Option.getD_some]

theorem refuses_of_lookup {name : String} {fault : Fault}
    (hlookup : g.lookup name = .error fault) : g.Refuses name fault := by
  refine ⟨hlookup, ?_, ?_, fun h => ?_⟩
  · rw [freeListOf, hlookup]
    rfl
  · rw [poolOf, freeListOf, hlookup]
    rfl
  · rw [snapshotOf, hlookup]

/-- A registry with the regions that its settings ask for. -/
structure Roster (m : Machine) (o : MemoryOptions) (g : Registry) : Prop where
  /-- A default region if the user has none, the user's regions in their order, and the system's. -/
  regions : g.all.map (·.options)
    = (if o.defaultRegionName = usualRegionName ∧ usualRegionName ∉ o.names then
        [o.filled.defaultRegion m] else [])
      ++ o.filled.regions ++ [o.filled.systemRegion m]
  distinct : (g.all.map (·.name)).Nodup
  found : ∀ r ∈ g.all, g.Finds r.name r
  unknown : ∀ name, (∀ r ∈ g.all, r.name ≠ name) → g.Refuses name (.regionUnknown name)
  /-- One region is marked, and that is the one that is used where none is named. -/
  default : ∃ r, g.all.filter (·.isDefault) = [r] ∧ r.name = o.defaultRegionName
    ∧ g.defaultRegion = .ok r ∧ g.Finds g.defaultName r

/-- A registry without regions. -/
structure Closed (g : Registry) : Prop where
  none : g.all = []
  refused : ∀ name, g.Refuses name .registryInactive
  default : g.defaultRegion = .error .registryInactive

theorem closed_of_inactive (hinactive : g.active = false) : g.Closed := by
  have hlookup : ∀ name, g.lookup name = .error .registryInactive := by
    intro name
    rw [lookup, hinactive]
    rfl
  refine ⟨?_, fun name => refuses_of_lookup (hlookup name), hlookup _⟩
  rw [all, hinactive]
  rfl

/-! ## Registries in use -/

/-- The settings and the marks of the regions, in their order. -/
def entries (g : Registry) : List (RegionOptions × Bool) :=
  g.regions.map fun r => (r.options, r.isDefault)

/-- A registry whose regions have the settings and marks that were planned. -/
structure Enrolled (m : Machine) (o : MemoryOptions) (g : Registry) : Prop where
  options : g.options = o
  active : g.active = true
  entries : g.entries = (o.plan m).map fun p => (p.options, p.isDefault)

theorem Enrolled.settings (hg : Enrolled m o g) :
    g.regions.map (·.options) = (o.plan m).map (·.options) := by
  have hsettings := congrArg (List.map Prod.fst) hg.entries
  unfold Registry.entries at hsettings
  rw [List.map_map, List.map_map] at hsettings
  exact hsettings

theorem Enrolled.names (hg : Enrolled m o g) : g.regions.map (·.name) = o.planNames m := by
  have hnames := congrArg (List.map RegionOptions.name) hg.settings
  rw [List.map_map, List.map_map] at hnames
  exact hnames

theorem Enrolled.distinct (ho : o.WellNamed) (hg : Enrolled m o g) :
    (g.regions.map (·.name)).Nodup := hg.names ▸ ho.planNames_nodup

/-- A call of a region leaves the settings and the marks of all as they are. -/
theorem Enrolled.update (ho : o.WellNamed) (hg : Enrolled m o g) {r r' : Region}
    (hr : r ∈ g.regions) (hsame : Region.Namesake r r') : Enrolled m o (g.update r') where
  options := hg.options
  active := hg.active
  entries := by
    rw [← hg.entries]
    unfold Registry.entries Registry.update
    rw [List.map_map]
    refine List.map_congr_left fun x hx => ?_
    simp only [Function.comp_apply]
    by_cases hname : x.name = r'.name
    · have hx' : x = r :=
        List.inj_on_of_nodup_map (hg.distinct ho) hx hr (hname.trans hsame.name)
      rw [if_pos hname, hsame.options, hsame.isDefault, hx']
    · rw [if_neg hname]

/-- **A registry in use has the regions that were planned until it is deactivated.** -/
theorem Used.enrolled (ho : o.WellNamed) (hused : Used g h g' k) (hg : Enrolled m o g) :
    g'.active = true → Enrolled m o g' := by
  induction hused with
  | first => exact fun _ => hg
  | @call name c g₁ h₁ _ ih =>
    unfold onRegion
    cases hlookup : g₁.lookup name with
    | error fault => exact ih
    | ok r =>
      have hr := (mem_of_lookup hlookup).1
      have hsame : Region.Namesake r (r.perform h₁ c).2.1 :=
        Region.Namesake.perform ⟨rfl, rfl⟩ h₁ c
      exact fun hactive => (ih hactive).update ho hr hsame
  | @deactivate g₁ h₁ _ ih =>
    unfold Registry.deactivate
    split
    · exact ih
    · exact nofun
  | outside k' _ same ih => exact ih

/-- A registry that is not active stays so. -/
theorem Used.inactive (hused : Used g h g' k) (hinactive : g.active = false) :
    g'.active = false := by
  induction hused with
  | first => exact hinactive
  | @call name c g₁ h₁ _ ih =>
    unfold onRegion
    cases g₁.lookup name with
    | error fault => exact ih
    | ok r => exact ih
  | @deactivate g₁ h₁ _ ih =>
    unfold Registry.deactivate
    split
    · exact ih
    · rfl
  | outside k' _ same ih => exact ih

theorem deactivate_inactive (g : Registry) (h : Host) : (g.deactivate h).1.active = false := by
  unfold deactivate
  split
  · next hnot => exact Bool.not_eq_true' _ ▸ hnot
  · rfl

/-- **What there is to find in a registry that has the planned regions.** -/
theorem Enrolled.roster (ho : o.Lawful) (hg : Enrolled m o.filled g) : g.Roster m o := by
  have hall : g.all = g.regions := by rw [all, hg.active, if_pos rfl]
  have hdistinct := hg.distinct ho.wellNamed
  have hfinds : ∀ r ∈ g.regions, g.Finds r.name r := fun r hr =>
    finds_of_lookup (lookup_of_mem hg.active hdistinct hr)
  constructor
  case regions =>
    have hlacks := ho.wellNamed.lacksDefault
    rw [MemoryOptions.filled_names] at hlacks
    rw [hall, hg.settings, MemoryOptions.plan_map_options]
    congr 2
    exact if_congr hlacks rfl rfl
  case distinct =>
    rw [hall]
    exact hdistinct
  case found =>
    rw [hall]
    exact hfinds
  case unknown =>
    rw [hall]
    intro name hnew
    refine refuses_of_lookup ?_
    have hfind : g.regions.find? (fun r => r.name = name) = Option.none :=
      List.find?_eq_none.mpr fun r hr => by simpa using hnew r hr
    rw [lookup, hg.active, hfind]
    rfl
  case default =>
    obtain ⟨p, hp, hname⟩ := ho.wellNamed.plan_default (m := m)
    have hmarked := congrArg (List.filter Prod.snd) hg.entries
    unfold Registry.entries at hmarked
    rw [List.filter_map, List.filter_map] at hmarked
    have hone : (g.regions.filter (·.isDefault)).map (fun r => (r.options, r.isDefault))
        = [(p.options, p.isDefault)] := hmarked.trans (congrArg _ hp)
    obtain ⟨r, hr, hentry⟩ := List.map_eq_singleton_iff.mp hone
    have hmem : r ∈ g.regions := List.mem_of_mem_filter (hr ▸ List.mem_singleton_self r)
    have hrname : r.name = o.defaultRegionName :=
      (congrArg RegionOptions.name (Prod.mk.inj hentry).1).trans hname
    have hdefault : r.name = g.defaultName := by
      rw [hrname, defaultName, hg.options]
      rfl
    refine ⟨r, ?_, hrname, ?_, hdefault ▸ hfinds r hmem⟩
    · rw [hall]
      exact hr
    · rw [defaultRegion, ← hdefault]
      exact (hfinds r hmem).region

/-! ## Activating -/

/-- Starting regions leaves their settings, their marks and their metrics as they are. -/
theorem Starts.kept {rs rs' : List Region} (hstarts : Starts rs h rs' k) :
    rs'.map (fun r => (r.options, r.isDefault)) = rs.map (fun r => (r.options, r.isDefault))
      ∧ ((∀ r ∈ rs, r.store.metrics.name = r.name) → ∀ r ∈ rs', r.store.metrics.name = r.name) := by
  induction hstarts with
  | nil => exact ⟨rfl, fun hmetrics => hmetrics⟩
  | @cons r r' rest rest' h h₁ k start more ih =>
    have hsame : Region.Namesake r (r.start h).2.1 := Region.Namesake.start ⟨rfl, rfl⟩ h
    have hmetrics := r.start_metrics h
    rw [start] at hsame hmetrics
    have hname : r'.name = r.name := hsame.name
    obtain ⟨hsettings, hmeasured⟩ := ih
    refine ⟨congrArg₂ List.cons (congrArg₂ Prod.mk hsame.options hsame.isDefault) hsettings,
      fun hall => ?_⟩
    obtain ⟨hfirst, hrest⟩ := List.forall_mem_cons.mp hall
    exact List.forall_mem_cons.mpr
      ⟨(congrArg RegionMetrics.name hmetrics).trans (hfirst.trans hname.symm), hmeasured hrest⟩

/-- Planned regions have names of their own when there are no others. -/
theorem fresh_fits (haccepted : (o.check false).result = .ok ()) (id : Nat) :
    (fresh id (o.check false).options).Fits ((o.check false).options.plan m) := by
  obtain ⟨hlawful, -, hfilled⟩ := o.check_decides
  rw [hfilled haccepted]
  exact (hlawful.mp haccepted).wellNamed.planNames_nodup

/-- **Accepted settings make an active registry just if all directories can be made and all regions
can be started**, and those are its regions. -/
theorem activate_ok_iff {id : Nat} (haccepted : (o.check false).result = .ok ()) :
    activate m id o h = (.ok g, h')
      ↔ ∃ k rs k', Prepares (o.check false).options ((o.check false).options.plan m)
          ((h.record (o.check false).notes).record (o.check false).options.dump) k
        ∧ Starts (((o.check false).options.plan m).map (made (o.check false).options · h.now)) k
          rs k'
        ∧ g = ⟨id, (o.check false).options, rs, true⟩ ∧ h' = k'.record [g.activeNote] := by
  have hfits := fresh_fits (m := m) haccepted id
  constructor
  · intro hok
    obtain ⟨-, added, k, started, k', hadd, hstart, rfl, hnoted⟩ := activate_eq_ok hok
    obtain ⟨hprepares, rfl⟩ := hfits.addPlanned_ok_iff.mp hadd
    exact ⟨k, started, k', hprepares, startEach_ok_iff.mp hstart, rfl, hnoted⟩
  · rintro ⟨k, rs, k', hprepares, hstarts, rfl, rfl⟩
    obtain ⟨added, hadded⟩ : ∃ added : Registry, added = ⟨id, (o.check false).options,
      ((o.check false).options.plan m).map (made (o.check false).options · h.now), false⟩ :=
      ⟨_, rfl⟩
    have hadd := hfits.addPlanned_ok_iff.mpr ⟨hprepares, hadded⟩
    have hstart : startEach added.regions k = (.ok (), rs, k') := by
      rw [hadded]
      exact startEach_ok_iff.mpr hstarts
    unfold activate
    simp only [haccepted]
    unfold bringUp
    rw [show (fresh id (o.check false).options).options = (o.check false).options from rfl, hadd]
    simp only
    rw [hstart, hadded]

/-- **Accepted settings have the regions they ask for made.** No name is in the way of another,
whatever the host. If nothing else fails there is a registry, it finds its regions by their names
and nothing else, and that stays so as long as it is active, whatever its regions are asked for.
When it was deactivated it finds nothing any more, however often it is deactivated again. -/
theorem activate_roster (id : Nat) (haccepted : (o.check false).result = .ok ()) :
    (∀ name k, ((fresh id (o.check false).options).addPlanned ((o.check false).options.plan m) k).1
        ≠ .error (.regionNameInUse name))
      ∧ (Smooth m o h → ∃ g h', activate m id o h = (.ok g, h') ∧ g.active = true
        ∧ (∀ r ∈ g.all, ∀ k, (r.snapshot g.directory k).1.name = r.name)
        ∧ ∀ g₁ h₁, Used g h' g₁ h₁ → (g₁.active = true → g₁.Roster m o)
          ∧ ∀ g₂ h₂, Used (g₁.deactivate h₁).1 (g₁.deactivate h₁).2 g₂ h₂ → g₂.Closed) := by
  have hfits := fresh_fits (m := m) haccepted id
  obtain ⟨hlawful, -, hfilled⟩ := o.check_decides
  have ho := hlawful.mp haccepted
  refine ⟨fun name k => hfits.addPlanned_ne_inUse name k, ?_⟩
  rintro ⟨k, rs, k', hprepares, hstarts⟩
  have hok : activate m id o h = (.ok _, _) :=
    (activate_ok_iff haccepted).mpr ⟨k, rs, k', hprepares, hstarts, rfl, rfl⟩
  obtain ⟨hsettings, hmeasured⟩ := hstarts.kept
  refine ⟨_, _, hok, rfl, fun r hr k => ?_, fun g₁ h₁ hused => ⟨fun hactive => ?_, ?_⟩⟩
  · rw [r.snapshot_name]
    refine hmeasured ?_ r hr
    intro x hx
    obtain ⟨p, -, rfl⟩ := List.mem_map.mp hx
    rfl
  · refine Enrolled.roster ho (hused.enrolled ho.wellNamed ?_ hactive)
    refine ⟨hfilled haccepted, rfl, hsettings.trans ?_⟩
    rw [hfilled haccepted, List.map_map]
    rfl
  · intro g₂ h₂ hlater
    exact closed_of_inactive (hlater.inactive (g₁.deactivate_inactive h₁))

/-- Settings of two regions, of which one has the usual name of the default region and the other is
the default. -/
def otherDefault : MemoryOptions :=
  { MemoryOptions.usual with
    regions := [RegionOptions.usual ⟨0, 0⟩ usualRegionName, swapping "rows" "swap"]
    defaultRegionName := "rows" }

/-- They make three regions, and there is one that is found without a name: the second. -/
theorem activate_roster_other_default :
    (otherDefault.check false).result = .ok () ∧ Smooth ⟨0, 0⟩ otherDefault emptyHost
      ∧ ∃ g h, activate ⟨0, 0⟩ 7 otherDefault emptyHost = (.ok g, h) ∧ g.Roster ⟨0, 0⟩ otherDefault
        ∧ (∃ r, g.defaultRegion = .ok r ∧ r.name = "rows")
        ∧ g.all.map (·.name) = ["default", "rows", "sysMemPlc"]
        ∧ (g.deactivate h).1.Closed := by
  have haccepted : (otherDefault.check false).result = .ok () := by decide +kernel
  have hisOk : (activate ⟨0, 0⟩ 7 otherDefault emptyHost).1.isOk = true := by decide +kernel
  have hsmooth : Smooth ⟨0, 0⟩ otherDefault emptyHost := by
    rcases hok : activate ⟨0, 0⟩ 7 otherDefault emptyHost with ⟨_ | g, h⟩
    · rw [hok] at hisOk
      cases hisOk
    · obtain ⟨k, rs, k', hprepares, hstarts, -⟩ := (activate_ok_iff haccepted).mp hok
      exact ⟨k, rs, k', hprepares, hstarts⟩
  obtain ⟨g, h, hok, hactive, -, hused⟩ := (activate_roster 7 haccepted).2 hsmooth
  obtain ⟨hroster, hclosed⟩ := hused g h .first
  obtain ⟨r, -, hname, hdefault, -⟩ := (hroster hactive).default
  refine ⟨haccepted, hsmooth, g, h, hok, hroster hactive, ⟨r, hdefault, hname⟩, ?_,
    hclosed _ _ .first⟩
  have hnames := congrArg (List.map RegionOptions.name) (hroster hactive).regions
  rw [List.map_map] at hnames
  exact hnames.trans (by decide +kernel)

end Registry
end PageRegions
