import PageRegions.Proofs.Options.Accepted

/-!
# What the rules decide

The rules are looked at one after the other, with early exits, a set of names that grows, and
settings that are filled in between them. `Lawful` says the same of the settings as they were
given, with nothing of that order: each condition is about one region or about the set of all
names, and none is about what is filled in. On addresses of 64 bits looking at the rules decides it;
on narrow ones they decide `FitsNarrow` besides. What they leave is `filled`.

The induction is over the regions, for any names that were met before; that a name is new is then
what `List.Nodup` says of the rest.
-/

set_option autoImplicit false

namespace PageRegions

/-! ## What lawful settings are -/

/-- Whether a region may be described so among the given settings. That its name is its own is
said of all regions together. -/
structure RegionOptions.Lawful (settings : MemoryOptions) (o : RegionOptions) : Prop where
  named : o.name ≠ ""
  unreserved : o.name ≠ settings.systemName
  size : o.initialSize = 0
    ∨ Fault.leastRegionSize ≤ o.initialSize ∧ o.initialSize ≤ o.maxSize
  interval : leastRateInterval ≤ o.rateInterval.toInt
  buckets : 0 < o.subIntervals.toInt
  evicts : settings.persistence = false → o.mode ≠ .disabled →
    Rules.Evicts o settings.effectivePageSize

/-- The region with an initial size that was left open fitted under its maximum size. -/
def RegionOptions.fitted (o : RegionOptions) : RegionOptions :=
  if o.initialSize = 0 then { o with initialSize := min Machine.usualInitialSize o.maxSize } else o

namespace MemoryOptions

def names (o : MemoryOptions) : List String := o.regions.map (·.name)

/-- Settings that break no rule on addresses of 64 bits. -/
structure Lawful (o : MemoryOptions) : Prop where
  systemNamed : o.systemName ≠ ""
  system_ne_default : o.systemName ≠ o.defaultRegionName
  system_ne_usual : o.systemName ≠ usualRegionName
  systemSize : Fault.leastRegionSize ≤ o.systemInitialSize
  systemGrows : o.systemInitialSize ≤ o.systemMaxSize
  regions : ∀ region ∈ o.regions, region.Lawful o
  distinct : o.names.Nodup
  defaultSize : o.defaultRegionSize ≠ 0 →
    Fault.leastRegionSize ≤ o.defaultRegionSize ∧ o.defaultRegionName = usualRegionName
  defaultNamed : o.defaultRegionName = usualRegionName ∨ o.defaultRegionName ∈ o.names

/-- Settings with no size that is too large for narrow addresses. -/
structure FitsNarrow (o : MemoryOptions) : Prop where
  system : o.systemInitialSize ≤ Fault.largestNarrowSize
  regions : ∀ region ∈ o.regions, region.initialSize ≤ Fault.largestNarrowSize
  default : o.defaultRegionSize ≤ Fault.largestNarrowSize

/-- The settings with the page size filled in. -/
def paged (o : MemoryOptions) : MemoryOptions := { o with pageSize := o.effectivePageSize }

/-- The settings with all that was left open filled in. -/
def filled (o : MemoryOptions) : MemoryOptions :=
  { o.paged with regions := o.regions.map RegionOptions.fitted }

end MemoryOptions

namespace Rules
variable {narrow : Bool}

/-! ## The rules one by one -/

theorem systemName_ok {name defaultName : String} :
    systemName name defaultName = .ok ()
      ↔ name ≠ "" ∧ name ≠ defaultName ∧ name ≠ usualRegionName := by
  unfold systemName
  rw [bind_ok, refuseIf_ok, refuseIf_ok, not_or]

theorem not_too_large {size : UInt64} :
    ¬(narrow = true ∧ Fault.largestNarrowSize < size)
      ↔ (narrow = true → size ≤ Fault.largestNarrowSize) := by
  rw [not_and, UInt64.not_lt]

theorem systemSize_ok {initial max : UInt64} :
    systemSize narrow initial max = .ok ()
      ↔ Fault.leastRegionSize ≤ initial ∧ (narrow = true → initial ≤ Fault.largestNarrowSize)
        ∧ initial ≤ max := by
  unfold systemSize
  rw [bind_ok, bind_ok, refuseIf_ok, refuseIf_ok, refuseIf_ok, not_too_large, UInt64.not_lt,
    UInt64.not_lt]

theorem regionName_ok {name reserved : String} {observed : List String} :
    regionName name reserved observed = .ok ()
      ↔ name ≠ "" ∧ name ∉ observed ∧ name ≠ reserved := by
  unfold regionName
  rw [bind_ok, bind_ok, refuseIf_ok, refuseIf_ok, refuseIf_ok]

theorem rateWindow_ok {o : RegionOptions} :
    rateWindow o = .ok ()
      ↔ leastRateInterval ≤ o.rateInterval.toInt ∧ 0 < o.subIntervals.toInt := by
  unfold rateWindow
  rw [bind_ok, bind_ok, refuseIf_ok, refuseIf_ok, refuseIf_ok]
  unfold leastRateInterval
  omega

theorem evictionOrNote_ok {persistence : Bool} {pageSize : UInt32} {o : RegionOptions} :
    (evictionOrNote persistence pageSize o).2 = .ok ()
      ↔ (persistence = false → o.mode ≠ .disabled → Evicts o pageSize) := by
  unfold evictionOrNote
  cases persistence with
  | false =>
    rw [if_neg Bool.false_ne_true, eviction_ok]
    simp
  | true => simp

/-- A default region that is among regions with names has one. -/
theorem defaultRegion_ok {name : String} {size : UInt64} {names : List String}
    (hnames : "" ∉ names) :
    defaultRegion narrow name size names = .ok ()
      ↔ (size ≠ 0 → Fault.leastRegionSize ≤ size ∧ name = usualRegionName)
        ∧ (narrow = true → size ≤ Fault.largestNarrowSize)
        ∧ (name = usualRegionName ∨ name ∈ names) := by
  have hnamed : name ∈ names → name ≠ "" := by
    rintro hmem rfl
    exact hnames hmem
  have hpure : (pure () : Except Fault Unit) = .ok () := rfl
  unfold defaultRegion
  simp only
  by_cases hsize : size = 0
  · subst hsize
    by_cases husual : name = usualRegionName
    · simp [husual, hpure]
    · simp only [husual, ne_eq, not_true_eq_false, not_false_eq_true, if_true, if_false, bind_ok,
        refuseIf_ok, Decidable.not_not, UInt64.zero_le, implies_true, false_implies, true_and,
        false_or]
      exact and_iff_right_of_imp hnamed
  · by_cases husual : name = usualRegionName
    · simp [hsize, husual, bind_ok, refuseIf_ok, hpure]
    · simp [hsize, husual, bind_ok, refuseIf_ok]

/-! ## The size of a region -/

theorem usualInitialSize_large : Fault.leastRegionSize ≤ Machine.usualInitialSize := by decide

theorem usualInitialSize_narrow : Machine.usualInitialSize ≤ Fault.largestNarrowSize := by decide

theorem narrowSize_ok {o : RegionOptions} :
    narrowSize narrow o = .ok ()
      ↔ (narrow = true → o.initialSize ≤ Fault.largestNarrowSize) := by
  unfold narrowSize
  rw [refuseIf_ok, not_too_large]

theorem min_of_le {a b : UInt64} (h : a ≤ b) : min a b = a := if_pos h

theorem min_of_lt {a b : UInt64} (h : b < a) : min a b = b := if_neg (UInt64.not_le.mpr h)

/-- An initial size that was left open is never refused: it is fitted. -/
theorem regionSize_open {o : RegionOptions} (hopen : o.initialSize = 0) :
    (regionSize narrow o).result = .ok () ∧ (regionSize narrow o).region = o.fitted := by
  have hlarge : ¬Machine.usualInitialSize < Fault.leastRegionSize :=
    UInt64.not_lt.mpr usualInitialSize_large
  unfold regionSize RegionOptions.fitted
  simp only [withInitialSize, hopen, if_true, if_neg hlarge]
  by_cases hlowered : o.maxSize < Machine.usualInitialSize
  · rw [if_pos hlowered, min_of_lt hlowered]
    simp only [narrowSize_ok, and_true]
    exact fun _ => UInt64.le_trans (UInt64.le_of_lt hlowered) usualInitialSize_narrow
  · rw [if_neg hlowered, min_of_le (UInt64.not_lt.mp hlowered)]
    simp only [narrowSize_ok, and_true]
    exact fun _ => usualInitialSize_narrow

/-- One that was asked for is taken as it is or not at all. -/
theorem regionSize_asked {o : RegionOptions} (hasked : o.initialSize ≠ 0) :
    ((regionSize narrow o).result = .ok ()
        ↔ (Fault.leastRegionSize ≤ o.initialSize ∧ o.initialSize ≤ o.maxSize)
          ∧ (narrow = true → o.initialSize ≤ Fault.largestNarrowSize))
      ∧ (regionSize narrow o).region = o := by
  unfold regionSize
  simp only [withInitialSize, if_neg hasked]
  by_cases hsmall : o.initialSize < Fault.leastRegionSize
  · simp [hsmall, UInt64.not_le.mpr hsmall]
  · rw [if_neg hsmall]
    by_cases hbelow : o.maxSize < o.initialSize
    · simp [hbelow, UInt64.not_le.mpr hbelow]
    · rw [if_neg hbelow]
      simp [narrowSize_ok, UInt64.not_lt.mp hsmall, UInt64.not_lt.mp hbelow]

/-- What is left of a region is the same whether it is accepted or not. -/
theorem regionSize_region (o : RegionOptions) : (regionSize narrow o).region = o.fitted := by
  by_cases hopen : o.initialSize = 0
  · exact (regionSize_open hopen).2
  · rw [(regionSize_asked hopen).2, RegionOptions.fitted, if_neg hopen]

theorem regionSize_decides {o : RegionOptions} :
    (regionSize narrow o).result = .ok ()
      ↔ (o.initialSize = 0 ∨ Fault.leastRegionSize ≤ o.initialSize ∧ o.initialSize ≤ o.maxSize)
        ∧ (narrow = true → o.initialSize ≤ Fault.largestNarrowSize) := by
  by_cases hopen : o.initialSize = 0
  · simp [hopen, (regionSize_open hopen).1]
  · simp [hopen, (regionSize_asked hopen).1]

/-! ## A region -/

section Fitted
variable (o : RegionOptions)

@[simp] theorem fitted_name : o.fitted.name = o.name := by
  unfold RegionOptions.fitted; split <;> rfl

@[simp] theorem fitted_maxSize : o.fitted.maxSize = o.maxSize := by
  unfold RegionOptions.fitted; split <;> rfl

@[simp] theorem fitted_mode : o.fitted.mode = o.mode := by
  unfold RegionOptions.fitted; split <;> rfl

@[simp] theorem fitted_rateInterval : o.fitted.rateInterval = o.rateInterval := by
  unfold RegionOptions.fitted; split <;> rfl

@[simp] theorem fitted_subIntervals : o.fitted.subIntervals = o.subIntervals := by
  unfold RegionOptions.fitted; split <;> rfl

/-- Whether a region evicts as it may does not depend on its initial size. -/
theorem evicts_fitted {pageSize : UInt32} : Evicts o.fitted pageSize ↔ Evicts o pageSize := by
  unfold RegionOptions.fitted
  split
  · exact ⟨fun h => ⟨h.1, h.2, h.3, h.4⟩, fun h => ⟨h.1, h.2, h.3, h.4⟩⟩
  · rfl

end Fitted

/-- A region breaks no rule exactly if it is lawful and its name is new. -/
theorem region_decides {settings : MemoryOptions} (hpaged : settings.pageSize ≠ 0)
    {observed : List String} {o : RegionOptions} :
    (region narrow settings observed o).result = .ok ()
      ↔ o.Lawful settings ∧ (narrow = true → o.initialSize ≤ Fault.largestNarrowSize)
        ∧ o.name ∉ observed := by
  have hpageSize : settings.effectivePageSize = settings.pageSize := if_neg hpaged
  have hlawful : o.Lawful settings ∧ (narrow = true → o.initialSize ≤ Fault.largestNarrowSize)
        ∧ o.name ∉ observed ↔
      regionName o.name settings.systemName observed = .ok ()
        ∧ (regionSize narrow o).result = .ok () ∧ rateWindow o.fitted = .ok ()
        ∧ (evictionOrNote settings.persistence settings.pageSize o.fitted).2 = .ok () := by
    rw [regionName_ok, regionSize_decides, rateWindow_ok, evictionOrNote_ok, evicts_fitted,
      fitted_mode, fitted_rateInterval, fitted_subIntervals, ← hpageSize]
    constructor
    · rintro ⟨h, hnarrow, hnew⟩
      exact ⟨⟨h.named, hnew, h.unreserved⟩, ⟨h.size, hnarrow⟩, ⟨h.interval, h.buckets⟩, h.evicts⟩
    · rintro ⟨⟨hnamed, hnew, hunreserved⟩, ⟨hsize, hnarrow⟩, ⟨hinterval, hbuckets⟩, hevicts⟩
      exact ⟨⟨hnamed, hunreserved, hsize, hinterval, hbuckets, hevicts⟩, hnarrow, hnew⟩
  rw [hlawful]
  unfold region
  generalize regionName o.name settings.systemName observed = named
  cases named with
  | error => simp
  | ok =>
    simp only [regionSize_region]
    cases (regionSize narrow o).result with
    | error => simp
    | ok =>
      cases rateWindow o.fitted with
      | error => simp
      | ok => simp

/-- What is left of a region whose name is refused is the region, and otherwise it is fitted. -/
theorem region_region (settings : MemoryOptions) (observed : List String) (o : RegionOptions) :
    (region narrow settings observed o).region = o
      ∨ (region narrow settings observed o).region = o.fitted := by
  unfold region
  cases regionName o.name settings.systemName observed with
  | error => exact .inl rfl
  | ok =>
    refine .inr ?_
    simp only [regionSize_region]
    cases (regionSize narrow o).result with
    | error => rfl
    | ok => cases rateWindow o.fitted <;> rfl

theorem region_fitted {settings : MemoryOptions} {observed : List String} {o : RegionOptions}
    (hok : (region narrow settings observed o).result = .ok ()) :
    (region narrow settings observed o).region = o.fitted := by
  unfold region at hok ⊢
  generalize regionName o.name settings.systemName observed = named at hok ⊢
  cases named with
  | error => cases hok
  | ok =>
    simp only [regionSize_region]
    cases (regionSize narrow o).result with
    | error => rfl
    | ok => cases rateWindow o.fitted <;> rfl

/-! ## All regions -/

/-- The regions break no rule exactly if each is lawful, no two share a name, and none has one of
those that were met before. -/
theorem regions_decides {settings : MemoryOptions} (hpaged : settings.pageSize ≠ 0)
    (observed : List String) (os : List RegionOptions) :
    (regions narrow settings observed os).2.2 = .ok ()
      ↔ (∀ o ∈ os, o.Lawful settings)
        ∧ (narrow = true → ∀ o ∈ os, o.initialSize ≤ Fault.largestNarrowSize)
        ∧ (os.map (·.name)).Nodup ∧ ∀ o ∈ os, o.name ∉ observed := by
  induction os generalizing observed with
  | nil => simp [regions]
  | cons first rest ih =>
    have hfirst : (region narrow settings observed first).result = .ok () ↔ _ :=
      region_decides hpaged
    have hrest := ih (first.name :: observed)
    unfold regions
    generalize region narrow settings observed first = sized at hfirst ⊢
    cases hresult : sized.result with
    | error =>
      simp only [hresult, reduceCtorEq, false_iff] at hfirst ⊢
      rintro ⟨hlawful, hnarrow, _, hnew⟩
      exact hfirst ⟨hlawful first List.mem_cons_self, fun h => hnarrow h first List.mem_cons_self,
        hnew first List.mem_cons_self⟩
    | ok =>
      obtain ⟨hlawful, hnarrow, hnew⟩ := hfirst.mp hresult
      simp only [hresult]
      rw [hrest, List.map_cons, List.nodup_cons, List.mem_map]
      constructor
      · rintro ⟨hall, hfits, hnodup, hothers⟩
        refine ⟨List.forall_mem_cons.mpr ⟨hlawful, hall⟩,
          fun h => List.forall_mem_cons.mpr ⟨hnarrow h, hfits h⟩, ⟨?_, hnodup⟩,
          List.forall_mem_cons.mpr ⟨hnew, fun o ho hobserved => ?_⟩⟩
        · rintro ⟨o, ho, hsame⟩
          exact hothers o ho (hsame ▸ List.mem_cons_self)
        · exact hothers o ho (List.mem_cons_of_mem _ hobserved)
      · rintro ⟨hall, hfits, ⟨hfresh, hnodup⟩, hothers⟩
        refine ⟨fun o ho => hall o (List.mem_cons_of_mem _ ho),
          fun h o ho => hfits h o (List.mem_cons_of_mem _ ho), hnodup, fun o ho hmem => ?_⟩
        rcases List.mem_cons.mp hmem with hsame | hobserved
        · exact hfresh ⟨o, ho, hsame⟩
        · exact hothers o (List.mem_cons_of_mem _ ho) hobserved

/-- Regions that break no rule are fitted, each in its place. -/
theorem regions_fitted {settings : MemoryOptions} {observed : List String}
    {os : List RegionOptions} (hok : (regions narrow settings observed os).2.2 = .ok ()) :
    (regions narrow settings observed os).1 = os.map RegionOptions.fitted := by
  induction os generalizing observed with
  | nil => rfl
  | cons first rest ih =>
    unfold regions at hok ⊢
    cases hresult : (region narrow settings observed first).result with
    | error => simp [hresult] at hok
    | ok =>
      simp only [hresult] at hok ⊢
      rw [region_fitted hresult, ih hok, List.map_cons]

/-- Regions with nothing left open are left as they are, whether they break a rule or not. -/
theorem regions_kept {settings : MemoryOptions} {observed : List String}
    {os : List RegionOptions} (hfitted : ∀ o ∈ os, o.fitted = o) :
    (regions narrow settings observed os).1 = os := by
  induction os generalizing observed with
  | nil => rfl
  | cons first rest ih =>
    have hfirst : (region narrow settings observed first).region = first := by
      rcases region_region settings observed first with h | h
      · exact h
      · exact h.trans (hfitted first List.mem_cons_self)
    unfold regions
    cases hresult : (region narrow settings observed first).result with
    | error => simp [hresult, hfirst]
    | ok => simp [hresult, hfirst, ih fun o ho => hfitted o (List.mem_cons_of_mem _ ho)]

end Rules

/-! ## All rules -/

namespace MemoryOptions
variable {narrow : Bool}

theorem withPageSize_paged (o : MemoryOptions) : o.withPageSize.1 = o.paged := by
  unfold withPageSize paged effectivePageSize
  split <;> rfl

theorem paged_effectivePageSize (o : MemoryOptions) :
    o.paged.effectivePageSize = o.effectivePageSize := if_neg o.effectivePageSize_ne_zero

/-- Filling in the page size changes nothing that makes settings lawful. -/
theorem lawful_paged {o : MemoryOptions} : o.paged.Lawful ↔ o.Lawful := by
  have hregion : ∀ region, RegionOptions.Lawful o.paged region ↔ region.Lawful o := fun region =>
    ⟨fun h => ⟨h.1, h.2, h.3, h.4, h.5, o.paged_effectivePageSize ▸ h.6⟩,
      fun h => ⟨h.1, h.2, h.3, h.4, h.5, o.paged_effectivePageSize.symm ▸ h.6⟩⟩
  constructor
  · rintro ⟨h1, h2, h3, h4, h5, hregions, h7, h8, h9⟩
    exact ⟨h1, h2, h3, h4, h5, fun r hr => (hregion r).mp (hregions r hr), h7, h8, h9⟩
  · rintro ⟨h1, h2, h3, h4, h5, hregions, h7, h8, h9⟩
    exact ⟨h1, h2, h3, h4, h5, fun r hr => (hregion r).mpr (hregions r hr), h7, h8, h9⟩

/-- The rules, all of them looked at, with the page size filled in. -/
theorem rules_ok {o : MemoryOptions} (hpaged : o.pageSize ≠ 0) :
    (Rules.systemName o.systemName o.defaultRegionName = .ok ()
      ∧ Rules.systemSize narrow o.systemInitialSize o.systemMaxSize = .ok ()
      ∧ (Rules.regions narrow o [] o.regions).2.2 = .ok ()
      ∧ Rules.defaultRegion narrow o.defaultRegionName o.defaultRegionSize o.names = .ok ())
    ↔ o.Lawful ∧ (narrow = true → o.FitsNarrow) := by
  have hunnamed : (∀ region ∈ o.regions, region.Lawful o) → "" ∉ o.names := by
    intro hregions hmem
    obtain ⟨region, hregion, hname⟩ := List.mem_map.mp hmem
    exact (hregions region hregion).named hname
  rw [Rules.systemName_ok, Rules.systemSize_ok, Rules.regions_decides hpaged]
  constructor
  · rintro ⟨⟨hnamed, hdefault, husual⟩, ⟨hsize, hnarrow, hgrows⟩,
      ⟨hregions, hfits, hdistinct, -⟩, hrest⟩
    obtain ⟨hdefaultSize, hdefaultFits, hdefaultNamed⟩ :=
      (Rules.defaultRegion_ok (hunnamed hregions)).mp hrest
    exact ⟨⟨hnamed, hdefault, husual, hsize, hgrows, hregions, hdistinct, hdefaultSize,
      hdefaultNamed⟩, fun h => ⟨hnarrow h, hfits h, hdefaultFits h⟩⟩
  · rintro ⟨h, hfits⟩
    exact ⟨⟨h.systemNamed, h.system_ne_default, h.system_ne_usual⟩,
      ⟨h.systemSize, fun hn => (hfits hn).system, h.systemGrows⟩,
      ⟨h.regions, fun hn => (hfits hn).regions, h.distinct, fun _ _ => List.not_mem_nil⟩,
      (Rules.defaultRegion_ok (hunnamed h.regions)).mpr
        ⟨h.defaultSize, fun hn => (hfits hn).default, h.defaultNamed⟩⟩

/-- Looking at all rules: settings are accepted if none is broken, and nothing but the page size
and the regions can change. -/
theorem check_rules (narrow : Bool) (o : MemoryOptions) :
    ((o.check narrow).result = .ok ()
        ↔ Rules.systemName o.systemName o.defaultRegionName = .ok ()
          ∧ Rules.systemSize narrow o.systemInitialSize o.systemMaxSize = .ok ()
          ∧ (Rules.regions narrow o.paged [] o.regions).2.2 = .ok ()
          ∧ Rules.defaultRegion narrow o.defaultRegionName o.defaultRegionSize o.names = .ok ())
      ∧ ((o.check narrow).options = o.paged ∧ (o.check narrow).result ≠ .ok ()
        ∨ (o.check narrow).options
          = { o.paged with regions := (Rules.regions narrow o.paged [] o.regions).1 }) := by
  have hpaged := o.withPageSize_paged
  unfold check
  generalize o.withPageSize = out at hpaged ⊢
  obtain ⟨p, noted⟩ := out
  cases hpaged
  simp only [paged, names]
  cases Rules.systemName o.systemName o.defaultRegionName with
  | error => simp
  | ok =>
    cases Rules.systemSize narrow o.systemInitialSize o.systemMaxSize with
    | error => simp
    | ok =>
      generalize Rules.regions narrow { o with pageSize := o.effectivePageSize } [] o.regions
        = looked
      obtain ⟨checked, notes, result⟩ := looked
      cases result with
      | error => simp
      | ok => simp

theorem check_result {o : MemoryOptions} :
    (o.check narrow).result = .ok () ↔ o.Lawful ∧ (narrow = true → o.FitsNarrow) := by
  have hfits : o.paged.FitsNarrow ↔ o.FitsNarrow :=
    ⟨fun h => ⟨h.1, h.2, h.3⟩, fun h => ⟨h.1, h.2, h.3⟩⟩
  rw [← lawful_paged, ← hfits, ← rules_ok o.effectivePageSize_ne_zero]
  exact (check_rules narrow o).1

/-- Of accepted settings, what was left open is filled in. -/
theorem check_filled {o : MemoryOptions} (hok : (o.check narrow).result = .ok ()) :
    (o.check narrow).options = o.filled := by
  obtain ⟨hrules, hoptions⟩ := check_rules narrow o
  rcases hoptions with ⟨-, hrefused⟩ | hoptions
  · exact absurd hok hrefused
  · rw [hoptions, Rules.regions_fitted (hrules.mp hok).2.2.1]
    rfl

/-- Which settings are lawful does not depend on the order of the regions. -/
theorem Lawful.reorder {o : MemoryOptions} (regions : List RegionOptions)
    (horder : regions.Perm o.regions) (h : o.Lawful) : Lawful { o with regions } where
  systemNamed := h.systemNamed
  system_ne_default := h.system_ne_default
  system_ne_usual := h.system_ne_usual
  systemSize := h.systemSize
  systemGrows := h.systemGrows
  regions := fun region hregion =>
    have hlawful := h.regions region (horder.mem_iff.mp hregion)
    ⟨hlawful.1, hlawful.2, hlawful.3, hlawful.4, hlawful.5, hlawful.6⟩
  distinct := ((horder.map _).nodup_iff).mpr h.distinct
  defaultSize := h.defaultSize
  defaultNamed := h.defaultNamed.imp_right ((horder.map _).mem_iff).mpr

/-- **What the rules decide**: on addresses of 64 bits settings are accepted exactly if they are
lawful, in whatever order the regions are given, and of accepted settings nothing is changed but
what was left open: the page size, and initial sizes, which are fitted under the maximum size. -/
theorem check_decides (o : MemoryOptions) :
    ((o.check false).result = .ok () ↔ o.Lawful)
      ∧ (∀ regions : List RegionOptions, regions.Perm o.regions →
        ((check false { o with regions }).result = .ok () ↔ (o.check false).result = .ok ()))
      ∧ ((o.check false).result = .ok () → (o.check false).options = o.filled) := by
  have hdecides : ∀ p : MemoryOptions, (p.check false).result = .ok () ↔ p.Lawful := fun p =>
    check_result.trans (and_iff_left nofun)
  refine ⟨hdecides o, fun regions horder => ?_, check_filled⟩
  rw [hdecides o, hdecides]
  exact ⟨fun h => (h.reorder o.regions horder.symm :), fun h => h.reorder regions horder⟩

/-- Settings of a region of 64 MiB whose initial size is left open, and of one of 20 MiB that
evicts. -/
def openAndEvicting : MemoryOptions :=
  let region (name : String) (size : UInt64) : RegionOptions :=
    { RegionOptions.usual ⟨0, 0⟩ name with maxSize := size * 1024 * 1024 }
  { usual with
    regions :=
      [region "open" 64,
        { region "evicting" 20 with initialSize := Fault.leastRegionSize, mode := .lru }] }

/-- Both are accepted, in either order; the first starts with all of its 64 MiB. -/
theorem check_decides_open_and_evicting :
    openAndEvicting.Lawful
      ∧ (check false { openAndEvicting with regions := openAndEvicting.regions.reverse }).result
        = .ok ()
      ∧ (openAndEvicting.check false).options = openAndEvicting.filled
      ∧ openAndEvicting.filled.regions.map (·.initialSize) = [64 * 1024 * 1024, 10 * 1024 * 1024]
      ∧ openAndEvicting.filled.pageSize = 4096 := by
  have hok : (openAndEvicting.check false).result = .ok () := by decide +kernel
  obtain ⟨hlawful, horder, hfilled⟩ := check_decides openAndEvicting
  exact ⟨hlawful.mp hok, (horder _ (List.reverse_perm _)).mpr hok, hfilled hok, by decide +kernel,
    by decide +kernel⟩

end MemoryOptions
end PageRegions
