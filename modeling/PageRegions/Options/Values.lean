import PageRegions.Options.Settings

/-!
# Settings by key

A record of settings is also a list of keys with values, in a fixed order (`values`), and any one of
them can be replaced by a value of its kind (`put`). The keys are those of option texts. Modes and
log levels count as their numbers.
-/

set_option autoImplicit false

namespace PageRegions

inductive SettingValue where
  | boolean (value : Bool)
  | integer (value : Int)
  | string (value : String)
  | binary64 (value : Binary64)
  | regions (value : List RegionOptions)
  deriving DecidableEq, Repr

namespace RegionOptions

def values (o : RegionOptions) : List (String × SettingValue) :=
  [("name", .string o.name), ("initial_size", .integer o.initialSize.toNat),
    ("max_size", .integer o.maxSize.toNat), ("page_eviction_mode", .integer o.mode.code.toNat),
    ("eviction_threshold", .binary64 o.threshold),
    ("empty_pages_pool_size", .integer o.poolSize.toInt), ("swap_file_path", .string o.swapPath),
    ("metrics_enabled", .boolean o.metricsEnabled),
    ("rate_time_interval_ms", .integer o.rateInterval.toInt),
    ("sub_intervals", .integer o.subIntervals.toInt)]

/-- Replaces the setting of a key, if there is one of that kind. -/
def put (o : RegionOptions) (key : String) (value : SettingValue) : Option RegionOptions :=
  match key, value with
  | "name", .string v => some { o with name := v }
  | "initial_size", .integer v => some { o with initialSize := UInt64.ofInt v }
  | "max_size", .integer v => some { o with maxSize := UInt64.ofInt v }
  | "page_eviction_mode", .integer v =>
    some { o with mode := EvictionMode.ofCode (UInt8.ofInt v) }
  | "eviction_threshold", .binary64 v => some { o with threshold := v }
  | "empty_pages_pool_size", .integer v => some { o with poolSize := Int32.ofInt v }
  | "swap_file_path", .string v => some { o with swapPath := v }
  | "metrics_enabled", .boolean v => some { o with metricsEnabled := v }
  | "rate_time_interval_ms", .integer v => some { o with rateInterval := Int64.ofInt v }
  | "sub_intervals", .integer v => some { o with subIntervals := Int32.ofInt v }
  | _, _ => none

end RegionOptions

namespace MemoryOptions

def values (o : MemoryOptions) : List (String × SettingValue) :=
  [("page_size", .integer o.pageSize.toNat), ("default_region_name", .string o.defaultRegionName),
    ("default_region_size", .integer o.defaultRegionSize.toNat),
    ("system_region_initial_size", .integer o.systemInitialSize.toNat),
    ("system_region_max_size", .integer o.systemMaxSize.toNat),
    ("system_region_name", .string o.systemName),
    ("override_fair_fifo_eviction", .boolean o.fairFifo),
    ("persistence_enabled", .boolean o.persistence), ("work_dir", .string o.workDir),
    ("consistent_id", .string o.nodeId), ("info_log_level", .integer o.logLevel.rank),
    ("regions", .regions o.regions)]

/-- Replaces the setting of a key, if there is one of that kind. -/
def put (o : MemoryOptions) (key : String) (value : SettingValue) : Option MemoryOptions :=
  match key, value with
  | "page_size", .integer v => some { o with pageSize := UInt32.ofInt v }
  | "default_region_name", .string v => some { o with defaultRegionName := v }
  | "default_region_size", .integer v => some { o with defaultRegionSize := UInt64.ofInt v }
  | "system_region_initial_size", .integer v =>
    some { o with systemInitialSize := UInt64.ofInt v }
  | "system_region_max_size", .integer v => some { o with systemMaxSize := UInt64.ofInt v }
  | "system_region_name", .string v => some { o with systemName := v }
  | "override_fair_fifo_eviction", .boolean v => some { o with fairFifo := v }
  | "persistence_enabled", .boolean v => some { o with persistence := v }
  | "work_dir", .string v => some { o with workDir := v }
  | "consistent_id", .string v => some { o with nodeId := v }
  | "info_log_level", .integer v =>
    (LogLevel.ofRank? v.toNat).map fun level => { o with logLevel := level }
  | "regions", .regions v => some { o with regions := v }
  | _, _ => none

end MemoryOptions

end PageRegions
