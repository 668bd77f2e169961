import PageRegions.Options.Rules
import PageRegions.Region

/-!
# Registries: named regions that live together

A registry is made from its settings in three steps. The settings are checked and filled in; from
what they say follows which regions there are (`plan`): a default region if the user has none, the
user's own, and the system's; and these are added and started in turn. If any step fails all that
was started is stopped again, the latest first, and there is no registry.

Swap files of a region lie in a directory of its own for each node (`swapDirectory`).

While a registry is active its regions are found by name, and the metrics of each region find its
free list. After it was deactivated it has no regions, and every look-up is refused.
-/

set_option autoImplicit false

namespace PageRegions

structure Registry where
  /-- What tells this registry from others. -/
  id : Nat
  /-- The settings, checked and filled in once the registry is active. -/
  options : MemoryOptions
  /-- The regions, in the order in which they were made. -/
  regions : List Region
  active : Bool

/-- A region in the hands of a caller: the registry it came from, and its name there. -/
structure RegionHandle where
  registry : Nat
  name : String
  deriving DecidableEq, Repr

/-- A region that a registry will make, and what is noted before. -/
structure PlannedRegion where
  notes : List Note
  options : RegionOptions
  isDefault : Bool
  deriving DecidableEq, Repr

namespace MemoryOptions

/-- The directory for the swap files of a region. -/
def swapDirectory (o : MemoryOptions) (region : RegionOptions) : String :=
  let base :=
    if o.workDir ≠ "" ∧ !Text.startsWith region.swapPath "/" then
      o.workDir ++ "/" ++ region.swapPath
    else region.swapPath
  base ++ "/" ++ (if o.nodeId = "" then "local" else Text.replaceChars o.nodeId ":,." '_')

/-- What the pages of a region are backed by. -/
def backing (o : MemoryOptions) (region : RegionOptions) : Backing :=
  if region.swapPath = "" then .anonymous else .files (o.swapDirectory region)

/-- Whether the default region has to be made. -/
def lacksDefault (o : MemoryOptions) : Bool :=
  o.regions.isEmpty ||
    (decide (o.defaultRegionName = usualRegionName) &&
      o.regions.all fun region => region.name ≠ usualRegionName)

def madeDefault (m : Machine) (o : MemoryOptions) : PlannedRegion :=
  ⟨[⟨.warn, "No user-defined default region found, a new region will be created [name="
      ++ usualRegionName ++ "]"⟩],
    o.defaultRegion m, true⟩

/-- A region of the user's. It is worth a note if it has the usual name of the default region but
another is the default. -/
def planUser (o : MemoryOptions) (region : RegionOptions) : PlannedRegion :=
  let isDefault := decide (region.name = o.defaultRegionName)
  ⟨if !isDefault ∧ region.name = usualRegionName then
      [⟨.warn, "Region " ++ Text.visible region.name
        ++ " is not used as the default region [default_region_name="
        ++ Text.visible o.defaultRegionName ++ "]"⟩]
    else [],
    region, isDefault⟩

def plan (m : Machine) (o : MemoryOptions) : List PlannedRegion :=
  (if o.lacksDefault then [o.madeDefault m] else [])
    ++ o.regions.map o.planUser
    ++ [⟨[], o.systemRegion m, false⟩]

end MemoryOptions

namespace Registry

def fresh (id : Nat) (o : MemoryOptions) : Registry := ⟨id, o, [], false⟩

/-! ## Making regions -/

def addRegion (g : Registry) (o : RegionOptions) (isDefault : Bool) (h : Host) :
    Except Fault Unit × Registry × Host :=
  if g.regions.any fun r => r.name = o.name then (.error (.regionNameInUse o.name), g, h)
  else
    let kind := TrackerKind.select o.mode g.options.persistence g.options.fairFifo
    let backing := g.options.backing o
    let region :=
      Region.fresh h.now o g.options.effectivePageSize isDefault g.options.persistence kind backing
        true
    let added := { g with regions := g.regions ++ [region] }
    match backing with
    | .anonymous => (.ok (), added, h)
    | .files directory =>
      match h.ensureDirectories directory with
      | (.error fault, h) => (.error (.swapDirectoryFailed o.name directory fault), g, h)
      | (.ok (), h) => (.ok (), added, h)

/-- Makes regions in turn. The first failure ends it. -/
def addPlanned (g : Registry) : List PlannedRegion → Host → Except Fault Unit × Registry × Host
  | [], h => (.ok (), g, h)
  | planned :: more, h =>
    match g.addRegion planned.options planned.isDefault (h.record planned.notes) with
    | (.error fault, g, h) => (.error fault, g, h)
    | (.ok (), g, h) => g.addPlanned more h

/-! ## Starting and stopping them -/

/-- Starts regions in turn. The first failure ends it. -/
def startEach : List Region → Host → Except Fault Unit × List Region × Host
  | [], h => (.ok (), [], h)
  | r :: more, h =>
    match r.start h with
    | (.error fault, r, h) =>
      (.error fault, r :: more,
        h.note .error ("Failed to start region " ++ Text.visible r.name ++ ": " ++ fault.text))
    | (.ok (), r, h) =>
      let (result, more, h) := startEach more h
      (result, r :: more, h)

/-- Stops regions, the last one first. -/
def stopEach : List Region → Host → List Region × Host
  | [], h => ([], h)
  | r :: more, h =>
    let (more, h) := stopEach more h
    let (_, r, h) := r.stop h
    (r :: more, h)

def dropEach : List Region → Host → Host
  | [], h => h
  | r :: more, h => dropEach more (r.drop h)

def discard (regions : List Region) (h : Host) : Host :=
  let (regions, h) := stopEach regions h
  dropEach regions h

def activeNote (g : Registry) : Note :=
  ⟨.info, "Activated region registry [regions=" ++ toString g.regions.length ++ ", default="
    ++ Text.visible g.options.defaultRegionName ++ ", page_size="
    ++ toString g.options.effectivePageSize.toNat ++ "]"⟩

/-- Makes and starts the regions of a registry whose settings have been checked. -/
def bringUp (m : Machine) (g : Registry) (h : Host) : Except Fault Registry × Host :=
  match g.addPlanned (g.options.plan m) h with
  | (.error fault, g, h) => (.error fault, dropEach g.regions h)
  | (.ok (), g, h) =>
    match startEach g.regions h with
    | (.error fault, regions, h) => (.error fault, discard regions h)
    | (.ok (), regions, h) =>
      let g := { g with regions := regions, active := true }
      (.ok g, h.record [g.activeNote])

def activate (m : Machine) (id : Nat) (o : MemoryOptions) (h : Host) :
    Except Fault Registry × Host :=
  let checked := o.check false
  let h := h.record checked.notes
  match checked.result with
  | .error fault => (.error fault, h.note .error ("Invalid memory options: " ++ fault.text))
  | .ok () => bringUp m (fresh id checked.options) (h.record checked.options.dump)

def deactivate (g : Registry) (h : Host) : Registry × Host :=
  if !g.active then (g, h)
  else
    ({ g with regions := [], active := false },
      (discard g.regions h).note .info "Deactivated region registry")

/-- Activates a registry in a place that may hold another one, which is deactivated once the new one
is active. If none becomes active the place is left alone. -/
def install (m : Machine) (id : Nat) (o : MemoryOptions) (held? : Option Registry) (h : Host) :
    Except Fault Unit × Option Registry × Host :=
  match activate m id o h with
  | (.error fault, h) => (.error fault, held?, h)
  | (.ok g, h) =>
    match held? with
    | none => (.ok (), some g, h)
    | some held => (.ok (), some g, (held.deactivate h).2)

/-! ## Look-ups -/

/-- The name of the region that is used where none is named. -/
def defaultName (g : Registry) : String := g.options.defaultRegionName

def lookup (g : Registry) (name : String) : Except Fault Region :=
  if !g.active then .error .registryInactive
  else
    match g.regions.find? fun r => r.name = name with
    | none => .error (.regionUnknown name)
    | some r => .ok r

def defaultRegion (g : Registry) : Except Fault Region := g.lookup g.defaultName

def freeListOf (g : Registry) (name : String) : Except Fault FreeList :=
  (g.lookup name).map (·.freeList)

/-- The pool of a region. Its free list keeps it. -/
def poolOf (g : Registry) (name : String) : Except Fault FreeList := g.freeListOf name

def all (g : Registry) : List Region := if g.active then g.regions else []

def handle (g : Registry) (name : String) : RegionHandle := ⟨g.id, name⟩

def update (g : Registry) (region : Region) : Registry :=
  { g with regions := g.regions.map fun r => if r.name = region.name then region else r }

/-- Does something to the region of a name. -/
def onRegion {α : Type} (g : Registry) (name : String) (act : Region → Host → α × Region × Host)
    (h : Host) : Except Fault α × Registry × Host :=
  match g.lookup name with
  | .error fault => (.error fault, g, h)
  | .ok r =>
    let (result, r, h) := act r h
    (.ok result, g.update r, h)

/-- Makes room in a region. Without a region there is nothing to do, and a region of another
registry is refused. -/
def ensureFreeSpace (g : Registry) (region? : Option RegionHandle) (h : Host) :
    Option (Except Fault Unit) × Registry × Host :=
  match region? with
  | none => (some (.ok ()), g, h)
  | some handle =>
    match g.lookup handle.name with
    | .error fault => (some (.error fault), g, h)
    | .ok r =>
      if handle.registry ≠ g.id then (some (.error (.foreignRegion handle.name)), g, h)
      else
        let (result, r, h) := r.ensureFreeSpace h
        (result, g.update r, h)

/-! ## Metrics -/

/-- Where the metrics of the regions find their free lists. -/
def directory (g : Registry) : ListDirectory where
  publishes name := g.active && g.regions.any fun r => r.name = name
  fill name := ((g.regions.find? fun r => r.name = name).map (·.freeList.fill)).getD (0, 0)

def snapshotEach (directory : ListDirectory) (h : Host) :
    List Region → List MetricsSnapshot × List Region
  | [] => ([], [])
  | r :: more =>
    let (snapshot, r) := r.snapshot directory h
    let (snapshots, more) := snapshotEach directory h more
    (snapshot :: snapshots, r :: more)

def snapshots (g : Registry) (h : Host) : List MetricsSnapshot × Registry :=
  if !g.active then ([], g)
  else
    let (snapshots, regions) := snapshotEach g.directory h g.regions
    (snapshots, { g with regions := regions })

def snapshotOf (g : Registry) (name : String) (h : Host) :
    Except Fault MetricsSnapshot × Registry :=
  match g.lookup name with
  | .error fault => (.error fault, g)
  | .ok r =>
    let (snapshot, r) := r.snapshot g.directory h
    (.ok snapshot, g.update r)

/-- Notes the statistics and the metrics of all regions. -/
def logStatistics (g : Registry) (h : Host) : Registry × Host :=
  let (snapshots, measured) := g.snapshots h
  let notes :=
    List.zipWith
      (fun (r : Region) (s : MetricsSnapshot) => [r.freeList.statistics, ⟨.info, s.text⟩])
      g.regions snapshots
  (measured, h.record notes.flatten)

end Registry

end PageRegions
