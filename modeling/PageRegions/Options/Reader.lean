import PageRegions.Options.Token
import PageRegions.Options.Values

/-!
# Settings from texts

Every setting has a key, and a reader for the text of its value. An option text is applied key by
key to a record of settings; the record that comes out differs from the one that went in only in
the settings that the text names.

Callers hand over a target, in whose place the record is put that was read (`tableInto`, `textInto`,
`listInto`). What is read goes into a copy until then, and a fault leaves the target as it was, so a
caller cannot see half of the changes. Where there is no target to speak of, there is the record or
the fault (`ofTable`, `ofText`, `listOfText`).

The list of regions is itself a setting of a registry. Its value is a text whose tokens, separated
by colons, are option texts of regions.
-/

set_option autoImplicit false

namespace PageRegions

/-! ## Values -/

inductive OptionKind where
  | boolean
  | signed32
  | signed64
  | unsigned32
  | unsigned64
  | string
  | binary64
  | mode
  | logLevel
  | regions
  | unknown
  deriving DecidableEq, Repr

def OptionKind.code : OptionKind → Nat
  | .boolean => 0
  | .signed32 => 1
  | .signed64 => 2
  | .unsigned32 => 3
  | .unsigned64 => 4
  | .string => 5
  | .binary64 => 6
  | .mode => 7
  | .logLevel => 8
  | .regions => 9
  | .unknown => 10

def OptionKind.name : OptionKind → String
  | .boolean => "bool"
  | .signed32 => "int"
  | .signed64 => "int64"
  | .unsigned32 => "uint32"
  | .unsigned64 => "uint64"
  | .string => "string"
  | .binary64 => "double"
  | .mode => "mode"
  | .logLevel => "level"
  | .regions => "regions"
  | .unknown => "unknown"

def OptionKind.all : List OptionKind :=
  [.boolean, .signed32, .signed64, .unsigned32, .unsigned64, .string, .binary64, .mode, .logLevel,
    .regions, .unknown]

namespace OptionValue

/-- A value that a number reader reads. Its refusal names the setting. -/
def ofNumber {α : Type} (option : String) : Except NumberFault α → Except Fault α
  | .ok a => .ok a
  | .error cause => .error (.malformedValue option cause)

/-- A value that is looked up by its name. -/
def ofNamed {α : Type} (option : String) : Option α → Except Fault α
  | some a => .ok a
  | none => .error (.unknownValue option)

def boolean (option value : String) : Except Fault Bool :=
  ofNumber option (Quantity.boolean "" value)

def signed32 (option value : String) : Except Fault Int32 :=
  ofNumber option (Quantity.signed32 value)

def signed64 (option value : String) : Except Fault Int64 :=
  ofNumber option (Quantity.signed64 value)

def unsigned32 (option value : String) : Except Fault UInt32 :=
  ofNumber option (Quantity.unsigned32 value)

def unsigned64 (option value : String) : Except Fault UInt64 :=
  ofNumber option (Quantity.unsigned64 value)

def binary64 (option value : String) : Except Fault Binary64 :=
  ofNumber option (Quantity.binary64 value)

def findMode? (name : String) : Option EvictionMode :=
  EvictionMode.named.find? fun mode => mode.name = name

def findLevel? (name : String) : Option LogLevel :=
  LogLevel.all.find? fun level => level.optionName = name

def mode (option value : String) : Except Fault EvictionMode :=
  ofNamed option (findMode? value)

def logLevel (option value : String) : Except Fault LogLevel :=
  ofNamed option (findLevel? value)

end OptionValue

/-- Reads a table entry by entry into a copy, and puts that in place of the target. -/
def readInto {σ : Type} (set : σ → String → String → Except Fault σ) (target copy : σ) :
    List (String × String) → Status × σ
  | [] => (.ok, copy)
  | (key, value) :: more =>
    match set copy key value with
    | .error fault => (.failed fault, target)
    | .ok changed => readInto set target changed more

/-! ## Regions -/

namespace RegionOptions

open OptionValue

/-- Sets one setting of a region from a text. -/
def set (o : RegionOptions) (key value : String) : Except Fault RegionOptions :=
  match key with
  | "name" => .ok { o with name := value }
  | "initial_size" => (unsigned64 key value).map fun v => { o with initialSize := v }
  | "max_size" => (unsigned64 key value).map fun v => { o with maxSize := v }
  | "page_eviction_mode" => (OptionValue.mode key value).map fun v => { o with mode := v }
  | "eviction_threshold" => (binary64 key value).map fun v => { o with threshold := v }
  | "empty_pages_pool_size" => (signed32 key value).map fun v => { o with poolSize := v }
  | "swap_file_path" => .ok { o with swapPath := value }
  | "metrics_enabled" => (boolean key value).map fun v => { o with metricsEnabled := v }
  | "rate_time_interval_ms" => (signed64 key value).map fun v => { o with rateInterval := v }
  | "sub_intervals" => (signed32 key value).map fun v => { o with subIntervals := v }
  | _ => .error (.unknownOption key)

def ofTable (base : RegionOptions) (table : List (String × String)) : Except Fault RegionOptions :=
  table.foldlM (fun o (key, value) => o.set key value) base

def ofText (base : RegionOptions) (text : List Char) : Except Fault RegionOptions :=
  match Token.pairsOf text with
  | ⟨_, some fault⟩ => .error fault
  | ⟨pairs, none⟩ => base.ofTable (Token.tableOf pairs)

def tableInto (base target : RegionOptions) (table : List (String × String)) :
    Status × RegionOptions := readInto set target base table

def textInto (base target : RegionOptions) (text : List Char) : Status × RegionOptions :=
  match Token.pairsOf text with
  | ⟨_, some fault⟩ => (.failed fault, target)
  | ⟨pairs, none⟩ => base.tableInto target (Token.tableOf pairs)

/-- Reads a list of regions, each an option text applied to `base`. Empty tokens are skipped. -/
def listOfText (base : RegionOptions) (text : List Char) : Except Fault (List RegionOptions) :=
  match text with
  | [] => .ok []
  | c :: t =>
    match _h : Token.next ':' (c :: t) with
    | .error fault => .error fault
    | .ok ⟨token, rest?⟩ =>
      match (if token = [] then .ok [] else (base.ofText token).map ([·])) with
      | .error fault => .error fault
      | .ok read =>
        match rest? with
        | none => .ok read
        | some rest => (listOfText base rest).map (read ++ ·)
  termination_by text.length
  decreasing_by
    exact Token.next_rest_length _h

/-- Reads a list of regions behind those that were found before, and puts them all in place of the
target. -/
def listBehind (base : RegionOptions) (target found : List RegionOptions) (text : List Char) :
    Status × List RegionOptions :=
  match text with
  | [] => (.ok, found)
  | c :: t =>
    match _h : Token.next ':' (c :: t) with
    | .error fault => (.failed fault, target)
    | .ok ⟨token, rest?⟩ =>
      match (if token = [] then .ok [] else (base.ofText token).map ([·])) with
      | .error fault => (.failed fault, target)
      | .ok read =>
        match rest? with
        | none => (.ok, found ++ read)
        | some rest => listBehind base target (found ++ read) rest
  termination_by text.length
  decreasing_by
    exact Token.next_rest_length _h

def listInto (base : RegionOptions) (target : List RegionOptions) (text : List Char) :
    Status × List RegionOptions := base.listBehind target [] text

end RegionOptions

/-! ## Registries -/

namespace MemoryOptions

open OptionValue

/-- Sets one setting of a registry from a text. Regions named there start from `fresh`. -/
def set (fresh : RegionOptions) (o : MemoryOptions) (key value : String) :
    Except Fault MemoryOptions :=
  match key with
  | "page_size" => (unsigned32 key value).map fun v => { o with pageSize := v }
  | "regions" => (fresh.listOfText value.toList).map fun v => { o with regions := v }
  | "default_region_name" => .ok { o with defaultRegionName := value }
  | "default_region_size" => (unsigned64 key value).map fun v => { o with defaultRegionSize := v }
  | "system_region_initial_size" =>
    (unsigned64 key value).map fun v => { o with systemInitialSize := v }
  | "system_region_max_size" => (unsigned64 key value).map fun v => { o with systemMaxSize := v }
  | "system_region_name" => .ok { o with systemName := value }
  | "override_fair_fifo_eviction" => (boolean key value).map fun v => { o with fairFifo := v }
  | "persistence_enabled" => (boolean key value).map fun v => { o with persistence := v }
  | "work_dir" => .ok { o with workDir := value }
  | "consistent_id" => .ok { o with nodeId := value }
  | "info_log_level" => (OptionValue.logLevel key value).map fun v => { o with logLevel := v }
  | _ => .error (.unknownOption key)

def ofTable (fresh : RegionOptions) (base : MemoryOptions) (table : List (String × String)) :
    Except Fault MemoryOptions :=
  table.foldlM (fun o (key, value) => o.set fresh key value) base

def ofText (fresh : RegionOptions) (base : MemoryOptions) (text : List Char) :
    Except Fault MemoryOptions :=
  match Token.pairsOf text with
  | ⟨_, some fault⟩ => .error fault
  | ⟨pairs, none⟩ => base.ofTable fresh (Token.tableOf pairs)

def tableInto (fresh : RegionOptions) (base target : MemoryOptions)
    (table : List (String × String)) : Status × MemoryOptions :=
  readInto (set fresh) target base table

def textInto (fresh : RegionOptions) (base target : MemoryOptions) (text : List Char) :
    Status × MemoryOptions :=
  match Token.pairsOf text with
  | ⟨_, some fault⟩ => (.failed fault, target)
  | ⟨pairs, none⟩ => base.tableInto fresh target (Token.tableOf pairs)

end MemoryOptions

/-! ## Values by kind -/

def OptionKind.read (fresh : RegionOptions) (kind : OptionKind) (option value : String) :
    Except Fault SettingValue :=
  match kind with
  | .boolean => (OptionValue.boolean option value).map .boolean
  | .signed32 => (OptionValue.signed32 option value).map fun v => .integer v.toInt
  | .signed64 => (OptionValue.signed64 option value).map fun v => .integer v.toInt
  | .unsigned32 => (OptionValue.unsigned32 option value).map fun v => .integer v.toNat
  | .unsigned64 => (OptionValue.unsigned64 option value).map fun v => .integer v.toNat
  | .string => .ok (.string value)
  | .binary64 => (OptionValue.binary64 option value).map .binary64
  | .mode => (OptionValue.mode option value).map fun v => .integer v.code.toNat
  | .logLevel => (OptionValue.logLevel option value).map fun v => .integer v.rank
  | .regions => (fresh.listOfText value.toList).map .regions
  | .unknown => .error (.unknownValue option)

end PageRegions
