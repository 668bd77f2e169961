import PageRegions.Options.Settings

/-!
# The rules on settings

A registry is started only from settings that obey the rules of this file. They are looked at in a
fixed order, and the first that is broken is the fault that is reported: first the system region,
then each of the user's regions in turn, then what is said about the default region.

Two settings may be left open and are filled in on the way: a page size of 0, and an initial size
of 0. An initial size that was filled in is fitted under the maximum size, one that was asked for
is not. Whatever was filled in before a broken rule stays filled in.

Every threshold comparison is one that what is no number answers with no. So a threshold that is no
number breaks no rule.
-/

set_option autoImplicit false

namespace PageRegions

/-- The number of pages that must be kept empty is more than this. -/
def leastPoolSize : Int := 10

/-- The share of the pages of a region that may be kept empty is one in this many. -/
def poolShare : Nat := 10

def leastThreshold : Binary64 := Binary64.ofRatio false 5 10

def greatestThreshold : Binary64 := Binary64.ofRatio false 999 1000

/-- The least length of a rate window, in milliseconds. -/
def leastRateInterval : Int := 1000

namespace Rules

def refuseIf (broken : Prop) [Decidable broken] (fault : Fault) : Except Fault Unit :=
  if broken then .error fault else .ok ()

/-! ## The system region -/

/-- The system region has a name, and not that of a default region. -/
def systemName (name defaultName : String) : Except Fault Unit := do
  refuseIf (name = "") .systemRegionUnnamed
  refuseIf (name = defaultName ∨ name = usualRegionName) (.systemNameTaken name)

/-- The system region is neither too small at first nor, on narrow addresses, too large, and it
does not shrink. -/
def systemSize (narrow : Bool) (initial max : UInt64) : Except Fault Unit := do
  refuseIf (initial < Fault.leastRegionSize) (.systemSizeTooSmall initial)
  refuseIf (narrow ∧ Fault.largestNarrowSize < initial) (.systemSizeTooLarge initial)
  refuseIf (max < initial) (.systemMaxBelowInitial initial max)

/-! ## The user's regions -/

/-- A region has a name that no region before it has and that is not reserved. -/
def regionName (name reserved : String) (observed : List String) : Except Fault Unit := do
  refuseIf (name = "") .regionUnnamed
  refuseIf (name ∈ observed) (.regionNameRepeated name)
  refuseIf (name = reserved) (.regionNameReserved name)

/-- The region with its initial size filled in, if that was left open. -/
def withInitialSize (o : RegionOptions) : RegionOptions :=
  if o.initialSize = 0 then { o with initialSize := Machine.usualInitialSize } else o

def loweredNote (o : RegionOptions) : Note :=
  ⟨.warn, "Region " ++ Text.visible o.name ++ " max_size=" ++ Quantity.human o.maxSize
    ++ " is smaller than the default initial size " ++ Quantity.human Machine.usualInitialSize
    ++ ", setting initial_size to " ++ Quantity.human o.maxSize⟩

/-- A region that has been looked at: as it is now, with what was noted and what was found. -/
structure Sized where
  region : RegionOptions
  notes : List Note
  result : Except Fault Unit

/-- The initial size of a region is not too large for narrow addresses. -/
def narrowSize (narrow : Bool) (o : RegionOptions) : Except Fault Unit :=
  refuseIf (narrow ∧ Fault.largestNarrowSize < o.initialSize)
    (.regionSizeTooLarge o.name o.initialSize)

/-- A region is large enough at first and does not shrink. -/
def regionSize (narrow : Bool) (o : RegionOptions) : Sized :=
  let filled := withInitialSize o
  if filled.initialSize < Fault.leastRegionSize then
    ⟨filled, [], .error (.regionSizeTooSmall filled.name filled.initialSize)⟩
  else if filled.maxSize < filled.initialSize then
    if o.initialSize = 0 then
      let lowered := { filled with initialSize := filled.maxSize }
      ⟨lowered, [loweredNote lowered], narrowSize narrow lowered⟩
    else
      ⟨filled, [],
        .error (.regionMaxBelowInitial filled.name filled.initialSize filled.maxSize)⟩
  else ⟨filled, [], narrowSize narrow filled⟩

/-- A rate window is long enough and has at least one bucket. -/
def rateWindow (o : RegionOptions) : Except Fault Unit := do
  refuseIf (o.rateInterval.toInt ≤ 0) (.rateIntervalNotPositive o.name o.rateInterval)
  refuseIf (o.subIntervals.toInt ≤ 0) (.subIntervalsNotPositive o.name o.subIntervals)
  refuseIf (o.rateInterval.toInt < leastRateInterval) (.rateIntervalTooShort o.name o.rateInterval)

/-- The most pages that a region may keep empty is less than this. -/
def poolLimit (o : RegionOptions) (pageSize : UInt32) : Nat :=
  o.maxSize.toNat / (if pageSize = 0 then usualPageSize else pageSize).toNat / poolShare

/-- A region that evicts does so at a sensible threshold, and keeps a sensible number of pages
empty. -/
def eviction (o : RegionOptions) (pageSize : UInt32) : Except Fault Unit := do
  if o.mode ≠ .disabled then
    refuseIf (o.threshold.less leastThreshold ∨ greatestThreshold.less o.threshold)
      (.thresholdOutOfRange o.name o.threshold)
    refuseIf (o.poolSize.toInt ≤ leastPoolSize) (.poolTooSmall o.name o.poolSize)
    let limit := poolLimit o pageSize
    refuseIf ((limit : Int) ≤ o.poolSize.toInt) (.poolTooLarge o.name o.poolSize limit)

/-- What is noted about a region that sets a mode although nothing is evicted. -/
def ignoredModeNote (o : RegionOptions) : Note :=
  ⟨.warn, "Region " ++ Text.visible o.name ++ " sets page_eviction_mode=" ++ o.mode.name
    ++ ", which is ignored when persistence is enabled"⟩

/-- What there is to say about the eviction of a region. -/
def evictionOrNote (persistence : Bool) (pageSize : UInt32) (o : RegionOptions) :
    List Note × Except Fault Unit :=
  if persistence then (if o.mode = .disabled then [] else [ignoredModeNote o], .ok ())
  else ([], eviction o pageSize)

def region (narrow : Bool) (settings : MemoryOptions) (observed : List String)
    (o : RegionOptions) : Sized :=
  match regionName o.name settings.systemName observed with
  | .error fault => ⟨o, [], .error fault⟩
  | .ok () =>
    let sized := regionSize narrow o
    match sized.result with
    | .error fault => ⟨sized.region, sized.notes, .error fault⟩
    | .ok () =>
      match rateWindow sized.region with
      | .error fault => ⟨sized.region, sized.notes, .error fault⟩
      | .ok () =>
        let (notes, result) :=
          evictionOrNote settings.persistence settings.pageSize sized.region
        ⟨sized.region, sized.notes ++ notes, result⟩

/-- The rules on all regions, in turn: the regions as they are now, what was noted and what was
found. -/
def regions (narrow : Bool) (settings : MemoryOptions) :
    List String → List RegionOptions → List RegionOptions × List Note × Except Fault Unit
  | _, [] => ([], [], .ok ())
  | observed, o :: rest =>
    let sized := region narrow settings observed o
    match sized.result with
    | .error fault => (sized.region :: rest, sized.notes, .error fault)
    | .ok () =>
      let (checked, notes, result) := regions narrow settings (o.name :: observed) rest
      (sized.region :: checked, sized.notes ++ notes, result)

/-! ## The default region -/

/-- The default region is given in at most one way: as one of the regions, or by its size. -/
def defaultRegion (narrow : Bool) (name : String) (size : UInt64) (names : List String) :
    Except Fault Unit := do
  if size ≠ 0 then
    refuseIf (name ≠ usualRegionName) (.defaultRegionGivenTwice name)
    refuseIf (size < Fault.leastRegionSize) (.defaultSizeTooSmall size)
    refuseIf (narrow ∧ Fault.largestNarrowSize < size) (.defaultSizeTooLarge size)
  if name ≠ usualRegionName then
    refuseIf (name = "") .defaultRegionUnnamed
    refuseIf (name ∉ names) (.defaultRegionUnknown name)

end Rules

/-- Settings that have been looked at: as they are now, with what was noted and what was found. -/
structure Checked where
  options : MemoryOptions
  notes : List Note
  result : Except Fault Unit

namespace MemoryOptions

/-- The settings with the page size filled in, and what is noted about it. -/
def withPageSize (o : MemoryOptions) : MemoryOptions × List Note :=
  if o.pageSize = 0 then
    ({ o with pageSize := usualPageSize },
      [⟨.info, "Page size is not set, using " ++ toString usualPageSize.toNat⟩])
  else (o, [])

/-- Looks at all rules. `narrow` says that addresses have no more than 32 bits. -/
def check (narrow : Bool) (settings : MemoryOptions) : Checked :=
  let (o, paged) := settings.withPageSize
  match Rules.systemName o.systemName o.defaultRegionName with
  | .error fault => ⟨o, paged, .error fault⟩
  | .ok () =>
    match Rules.systemSize narrow o.systemInitialSize o.systemMaxSize with
    | .error fault => ⟨o, paged, .error fault⟩
    | .ok () =>
      let (checked, notes, result) := Rules.regions narrow o [] o.regions
      let filled := { o with regions := checked }
      match result with
      | .error fault => ⟨filled, paged ++ notes, .error fault⟩
      | .ok () =>
        ⟨filled, paged ++ notes,
          Rules.defaultRegion narrow o.defaultRegionName o.defaultRegionSize
            (o.regions.map (·.name))⟩

end MemoryOptions

end PageRegions
