import PageRegions.Fault
import PageRegions.Journal
import PageRegions.Options.Machine

/-!
# Settings of regions and of a registry

A region is described by `RegionOptions`, a set of regions by `MemoryOptions`. Both are plain
records; which combinations make sense is decided elsewhere, by the rules on settings.
-/

set_option autoImplicit false

namespace PageRegions

inductive EvictionMode where
  /-- It does not: allocation beyond the maximum size fails. -/
  | disabled
  /-- Samples some pages and evicts the one that was touched longest ago. -/
  | lru
  /-- Like `lru`, but a page counts by the earlier of its last two accesses. -/
  | lru2
  | unknown (code : UInt8)
  deriving DecidableEq, Repr, Inhabited

namespace EvictionMode

def ofCode (n : UInt8) : EvictionMode :=
  if n = 0 then .disabled else if n = 1 then .lru else if n = 2 then .lru2 else .unknown n

def code : EvictionMode → UInt8
  | .disabled => 0
  | .lru => 1
  | .lru2 => 2
  | .unknown n => n

def named : List EvictionMode := [.disabled, .lru, .lru2]

def name : EvictionMode → String
  | .disabled => "kDisabled"
  | .lru => "kRandomLRU"
  | .lru2 => "kRandom2LRU"
  | .unknown _ => "kUnknown"

end EvictionMode

structure RegionOptions where
  /-- The name, which is unique and not empty. -/
  name : String
  /-- The memory mapped at the start, in bytes; 0 stands for the usual size. -/
  initialSize : UInt64
  /-- The most memory the region may hold, in bytes. -/
  maxSize : UInt64
  mode : EvictionMode
  /-- The share of the maximum size above which room is made before a row is placed. -/
  threshold : Binary64
  /-- Making room ends once this many pages are empty. -/
  poolSize : Int32
  /-- The directory of the swap files; empty if pages are backed by memory alone. -/
  swapPath : String
  /-- Whether counters are kept from the start. -/
  metricsEnabled : Bool
  /-- The length of the window over which rates are taken, in milliseconds. -/
  rateInterval : Int64
  /-- How many buckets that window is divided into. -/
  subIntervals : Int32
  deriving DecidableEq, Repr

namespace RegionOptions

/-- The settings of a region about which nothing is said but its name. -/
def usual (m : Machine) (name : String) : RegionOptions where
  name := name
  initialSize := 0
  maxSize := m.usualMaxSize
  mode := .disabled
  threshold := Binary64.ofRatio false 9 10
  poolSize := 100
  swapPath := ""
  metricsEnabled := false
  rateInterval := 60000
  subIntervals := 5

end RegionOptions

/-- The name of the region that is used where none is named. -/
def usualRegionName : String := "default"

/-- The page size where none is given. -/
def usualPageSize : UInt32 := 4096

structure MemoryOptions where
  /-- The size of a data page; 0 stands for the usual one. -/
  pageSize : UInt32
  regions : List RegionOptions
  /-- The name of the region that is used where none is named. -/
  defaultRegionName : String
  /-- The maximum size of the default region if it is not among the user's; 0 if not given. -/
  defaultRegionSize : UInt64
  systemInitialSize : UInt64
  systemMaxSize : UInt64
  systemName : String
  /-- Evict pages in the order of their first use, whatever the regions say. -/
  fairFifo : Bool
  /-- A store of its own keeps the pages, so nothing is evicted here. -/
  persistence : Bool
  /-- The directory that relative swap paths start from. -/
  workDir : String
  nodeId : String
  logLevel : LogLevel
  deriving DecidableEq, Repr

namespace MemoryOptions

/-- The settings of a registry about which nothing is said. -/
def usual : MemoryOptions where
  pageSize := 0
  regions := []
  defaultRegionName := usualRegionName
  defaultRegionSize := 0
  systemInitialSize := 40 * 1024 * 1024
  systemMaxSize := 100 * 1024 * 1024
  systemName := "sysMemPlc"
  fairFifo := false
  persistence := false
  workDir := ""
  nodeId := ""
  logLevel := .info

def effectivePageSize (o : MemoryOptions) : UInt32 :=
  if o.pageSize = 0 then usualPageSize else o.pageSize

/-- The default region that is made if the user defines none. -/
def defaultRegion (m : Machine) (o : MemoryOptions) : RegionOptions :=
  let region := RegionOptions.usual m usualRegionName
  let size := if o.defaultRegionSize ≠ 0 then o.defaultRegionSize else m.usualMaxSize
  { region with maxSize := size, initialSize := min Machine.usualInitialSize size }

def systemRegion (m : Machine) (o : MemoryOptions) : RegionOptions :=
  { RegionOptions.usual m o.systemName with
    initialSize := o.systemInitialSize, maxSize := o.systemMaxSize }

end MemoryOptions

/-! ## Settings as lines of a log -/

def flag (b : Bool) : String := if b then "1" else "0"

namespace RegionOptions

/-- The settings of a region, a header line each. -/
def dump (o : RegionOptions) : List Note :=
  let line (indent label value : String) : Note :=
    ⟨.header, indent ++ "Region[" ++ Text.visible o.name ++ "]." ++ label ++ ": " ++ value⟩
  [ line "                  " "initial_size" (Quantity.human o.initialSize),
    line "                      " "max_size" (Quantity.human o.maxSize),
    line "            " "page_eviction_mode" o.mode.name,
    line "            " "eviction_threshold" (o.threshold.toFixed 3),
    line "         " "empty_pages_pool_size" (toString o.poolSize.toInt),
    line "                " "swap_file_path"
      (if o.swapPath.isEmpty then "(anonymous memory)" else Text.visible o.swapPath),
    line "               " "metrics_enabled" (flag o.metricsEnabled),
    line "         " "rate_time_interval_ms" (toString o.rateInterval.toInt),
    line "                 " "sub_intervals" (toString o.subIntervals.toInt) ]

end RegionOptions

namespace MemoryOptions

/-- The settings of a registry, a header line each, and behind them those of its regions. -/
def dump (o : MemoryOptions) : List Note :=
  let line (label value : String) : Note := ⟨.header, label ++ ": " ++ value⟩
  [ line "                  Options.page_size" (toString o.effectivePageSize.toNat),
    line "        Options.default_region_name" (Text.visible o.defaultRegionName),
    line "        Options.default_region_size"
      (if o.defaultRegionSize = 0 then "(not set)" else Quantity.human o.defaultRegionSize),
    line " Options.system_region_initial_size" (Quantity.human o.systemInitialSize),
    line "     Options.system_region_max_size" (Quantity.human o.systemMaxSize),
    line "         Options.system_region_name" (Text.visible o.systemName),
    line "Options.override_fair_fifo_eviction" (flag o.fairFifo),
    line "        Options.persistence_enabled" (flag o.persistence),
    line "                   Options.work_dir" (Text.visible o.workDir),
    line "              Options.consistent_id" (Text.visible o.nodeId),
    line "                    Options.regions" (toString o.regions.length) ]
  ++ o.regions.flatMap RegionOptions.dump

end MemoryOptions

end PageRegions
