import PageRegions.Number.Quantity
import PageRegions.Page.Id

/-!
# Faults: why an operation was refused

Every operation that can fail names the cause of its failure as a value of `Fault`. The cause
decides both what its callers may do about it (`kind`: only a free list that answers `notFound`
lets a tracker try another victim, only `incomplete` means that memory is used up) and what people
read (`message` and `detail`). All wording is in this file.

A fault that a collaborator words itself is `reported`. `Status` is the same information for
callers that want success among the values.
-/

set_option autoImplicit false

namespace PageRegions

/-- Why the host refused an operation on files or mappings. -/
inductive HostError where
  | success
  | noEntry
  | notDirectory
  | isDirectory
  | alreadyExists
  | notEmpty
  | nameTooLong
  | invalidArgument
  | busy
  | denied
  | outOfMemory
  deriving DecidableEq, Repr

def HostError.message : HostError → String
  | .success => "Success"
  | .noEntry => "No such file or directory"
  | .notDirectory => "Not a directory"
  | .isDirectory => "Is a directory"
  | .alreadyExists => "File exists"
  | .notEmpty => "Directory not empty"
  | .nameTooLong => "File name too long"
  | .invalidArgument => "Invalid argument"
  | .busy => "Device or resource busy"
  | .denied => "Permission denied"
  | .outOfMemory => "Cannot allocate memory"

/-- The operations on the file system whose failures are worded alike. -/
inductive FileTask where
  | list
  | delete
  | makeDirectory
  | removeDirectory
  | openLog
  deriving DecidableEq, Repr

def FileTask.message : FileTask → String
  | .list => "While opendir"
  | .delete => "while unlink() file"
  | .makeDirectory => "While mkdir if missing"
  | .removeDirectory => "file rmdir"
  | .openLog => "when fopen a file for new logger"

/-- The kinds of faults that callers tell apart. -/
inductive FaultKind where
  | notFound
  | notSupported
  | invalidArgument
  | io
  | incomplete
  | shutdownInProgress
  | aborted
  deriving DecidableEq, Repr

/-- The number of a kind. Success is 0, and 2 is not in use. -/
def FaultKind.code : FaultKind → Nat
  | .notFound => 1
  | .notSupported => 3
  | .invalidArgument => 4
  | .io => 5
  | .incomplete => 6
  | .shutdownInProgress => 7
  | .aborted => 8

def FaultKind.all : List FaultKind :=
  [.notFound, .notSupported, .invalidArgument, .io, .incomplete, .shutdownInProgress, .aborted]

def FaultKind.name : FaultKind → String
  | .notFound => "NotFound"
  | .notSupported => "NotSupported"
  | .invalidArgument => "InvalidArgument"
  | .io => "IOError"
  | .incomplete => "Incomplete"
  | .shutdownInProgress => "ShutdownInProgress"
  | .aborted => "Aborted"

def FaultKind.heading : FaultKind → String
  | .notFound => "NotFound: "
  | .notSupported => "Not implemented: "
  | .invalidArgument => "Invalid argument: "
  | .io => "IO error: "
  | .incomplete => "Result incomplete: "
  | .shutdownInProgress => "Shutdown in progress: "
  | .aborted => "Operation aborted: "

inductive Fault where
  -- option texts
  | equalsExpected
  | unexpectedCharInKey
  | emptyKey
  | unmatchedBrace
  | textBehindBrace
  | malformedValue (option : String) (cause : NumberFault)
  | unknownValue (option : String)
  | unknownOption (option : String)
  -- rules on options
  | systemRegionUnnamed
  | systemNameTaken (name : String)
  | systemSizeTooSmall (size : UInt64)
  | systemSizeTooLarge (size : UInt64)
  | systemMaxBelowInitial (initial max : UInt64)
  | regionUnnamed
  | regionNameRepeated (name : String)
  | regionNameReserved (name : String)
  | regionSizeTooSmall (name : String) (size : UInt64)
  | regionSizeTooLarge (name : String) (size : UInt64)
  | regionMaxBelowInitial (name : String) (initial max : UInt64)
  | rateIntervalNotPositive (name : String) (ms : Int64)
  | rateIntervalTooShort (name : String) (ms : Int64)
  | subIntervalsNotPositive (name : String) (count : Int32)
  | thresholdOutOfRange (name : String) (threshold : Binary64)
  | poolTooSmall (name : String) (pool : Int32)
  | poolTooLarge (name : String) (pool : Int32) (limit : Nat)
  | defaultRegionGivenTwice (name : String)
  | defaultSizeTooSmall (size : UInt64)
  | defaultSizeTooLarge (size : UInt64)
  | defaultRegionUnnamed
  | defaultRegionUnknown (name : String)
  -- files
  | emptyDirectoryName
  | missingFile
  | fileTaskFailed (task : FileTask) (path : String) (cause : HostError)
  | notADirectory (path : String)
  | logCloseFailed (path : String)
  | closeUnsupported
  -- memory
  | chunksExhausted
  | anonymousMappingFailed (size : UInt64)
  | swapFileNotOpened (path : String) (cause : HostError)
  | swapFileNotSized (path : String) (cause : HostError)
  | swapFileNotMapped (path : String) (cause : HostError)
  | memoryNotStarted (region : String)
  | outOfMemory (region : String) (initial max loaded : UInt64)
  | pageNotAllocated (page : PageId)
  -- pages and rows
  | pageStillHoldsRows (page : PageId)
  | pageAlreadyRecycled (page : PageId)
  | pageNotInRegion (region : String) (page : PageId)
  | noRecycledPage (region : String)
  | emptyRow
  | rowTooLarge (row capacity : UInt32)
  | pageHoldsNoRows (page : PageId)
  | rowNotOnPage (page : PageId) (row used : UInt32)
  -- eviction
  | nothingTracked
  | evictionAttemptsUsedUp (attempts : Nat)
  -- registry
  | registryInactive
  | regionUnknown (name : String)
  | regionNameInUse (name : String)
  | swapDirectoryFailed (region directory : String) (cause : Fault)
  | foreignRegion (name : String)
  /-- A fault in the words of a collaborator. -/
  | reported (kind : FaultKind) (message : Option String) (detail : String)
  deriving DecidableEq, Repr

namespace Fault

/-- The least size of a region, 10 MiB. -/
def leastRegionSize : UInt64 := 10 * 1024 * 1024

/-- The largest initial size on a 32-bit address space, 2 GiB. -/
def largestNarrowSize : UInt64 := 2 * 1024 * 1024 * 1024

def kind : Fault → FaultKind
  | .missingFile | .noRecycledPage .. | .pageHoldsNoRows .. | .regionUnknown .. => .notFound
  | .closeUnsupported | .rowTooLarge .. => .notSupported
  | .fileTaskFailed .. | .notADirectory .. | .logCloseFailed .. | .swapFileNotOpened ..
  | .swapFileNotSized .. | .swapFileNotMapped .. | .swapDirectoryFailed .. => .io
  | .chunksExhausted => .incomplete
  | .memoryNotStarted .. | .registryInactive => .shutdownInProgress
  | .anonymousMappingFailed .. | .outOfMemory .. | .nothingTracked
  | .evictionAttemptsUsedUp .. => .aborted
  | .reported kind _ _ => kind
  | _ => .invalidArgument

/-- What a message says about a region and one of its sizes. -/
def regionAndSize (name : String) (size : UInt64) : String :=
  "name=" ++ name ++ ", size=" ++ Quantity.human size

/-- A message, and the detail that follows it behind a colon unless it is empty. -/
def compose (message detail : String) : String :=
  if detail.isEmpty then message else message ++ ": " ++ detail

/-- The text of a host error behind what was attempted on a path. -/
def onPath (attempt path : String) (cause : HostError) : String :=
  attempt ++ " " ++ path ++ (if cause = .noEntry then ": Path not found" else "") ++ ": "
    ++ cause.message

/-- The words for a fault without those for its kind, before they are cut at a NUL byte. Two causes
have none. -/
def words? : Fault → Option String
  | .equalsExpected => some "Mismatched key value pair, '=' expected"
  | .unexpectedCharInKey => some "Unexpected char in key"
  | .emptyKey => some "Empty key found"
  | .unmatchedBrace => some "Mismatched curly braces for nested options"
  | .textBehindBrace => some "Unexpected chars after nested options"
  | .malformedValue option cause =>
    some ("Error parsing " ++ option ++ ":" ++ cause.message)
  | .unknownValue option => some (compose "Error parsing:" option)
  | .unknownOption option => some (compose "Unrecognized option" option)
  | .systemRegionUnnamed => some "System region must have a non-empty name"
  | .systemNameTaken name =>
    some (compose "System region name collides with the default region name" name)
  | .systemSizeTooSmall size =>
    some (compose ("Initial size of the system region must be at least "
      ++ Quantity.human leastRegionSize
      ++ " (use MemoryOptions::system_region_initial_size)") ("size=" ++ Quantity.human size))
  | .systemSizeTooLarge size =>
    some (compose ("Initial size of the system region exceeds "
      ++ Quantity.human largestNarrowSize ++ " on a 32-bit address space")
      ("size=" ++ Quantity.human size))
  | .systemMaxBelowInitial initial max =>
    some (compose ("Max size of the system region must not be smaller than its initial size "
      ++ "(use MemoryOptions::system_region_initial_size and "
      ++ "MemoryOptions::system_region_max_size)")
      ("initial_size=" ++ Quantity.human initial ++ ", max_size=" ++ Quantity.human max))
  | .regionUnnamed => some "Region must have a non-empty name"
  | .regionNameRepeated name => some (compose "Two regions have the same name" name)
  | .regionNameReserved name => some (compose "Region name is reserved for internal use" name)
  | .regionSizeTooSmall name size =>
    some (compose ("Region initial size must be at least " ++ Quantity.human leastRegionSize)
      (regionAndSize name size))
  | .regionSizeTooLarge name size =>
    some (compose ("Region initial size exceeds " ++ Quantity.human largestNarrowSize
      ++ " on a 32-bit address space") (regionAndSize name size))
  | .regionMaxBelowInitial name initial max =>
    some (compose "Region max size must not be smaller than its initial size"
      ("name=" ++ name ++ ", initial_size=" ++ Quantity.human initial ++ ", max_size="
        ++ Quantity.human max))
  | .rateIntervalNotPositive name ms =>
    some (compose "Rate time interval must be greater than zero"
      ("name=" ++ name ++ ", rate_time_interval_ms=" ++ toString ms.toInt))
  | .rateIntervalTooShort name ms =>
    some (compose "Rate time interval must be at least 1000 milliseconds"
      ("name=" ++ name ++ ", rate_time_interval_ms=" ++ toString ms.toInt))
  | .subIntervalsNotPositive name count =>
    some (compose "Sub intervals must be greater than zero"
      ("name=" ++ name ++ ", sub_intervals=" ++ toString count.toInt))
  | .thresholdOutOfRange name threshold =>
    some (compose "Page eviction threshold must be between 0.5 and 0.999"
      ("name=" ++ name ++ ", eviction_threshold=" ++ Quantity.twoPlaces threshold))
  | .poolTooSmall name pool =>
    some (compose "Empty pages pool size must be greater than 10"
      ("name=" ++ name ++ ", empty_pages_pool_size=" ++ toString pool.toInt))
  | .poolTooLarge name pool limit =>
    some (compose ("Empty pages pool size must be less than " ++ toString limit)
      ("name=" ++ name ++ ", empty_pages_pool_size=" ++ toString pool.toInt))
  | .defaultRegionGivenTwice name =>
    some (compose ("A user-defined default region and default_region_size are set at the same "
      ++ "time; remove one of them") ("default_region_name=" ++ name))
  | .defaultSizeTooSmall size =>
    some (compose ("Default region size must be at least " ++ Quantity.human leastRegionSize)
      ("size=" ++ Quantity.human size))
  | .defaultSizeTooLarge size =>
    some (compose ("Default region size exceeds " ++ Quantity.human largestNarrowSize
      ++ " on a 32-bit address space") ("size=" ++ Quantity.human size))
  | .defaultRegionUnnamed => some "Default region name must be non-empty"
  | .defaultRegionUnknown name =>
    some (compose "Default region name must be one of the configured regions" name)
  | .emptyDirectoryName => some "Empty directory name"
  | .missingFile => none
  | .fileTaskFailed task path cause => some (onPath task.message path cause)
  | .notADirectory path => some ("`" ++ path ++ "' exists but is not a directory")
  | .logCloseFailed path => some (compose "Close of log file failed with error:" path)
  | .closeUnsupported => none
  | .chunksExhausted => some "All memory chunks are mapped"
  | .anonymousMappingFailed size =>
    some (compose "Failed to map anonymous memory" (Quantity.human size))
  | .swapFileNotOpened path cause =>
    some (compose ("While open a file for memory mapping " ++ path) cause.message)
  | .swapFileNotSized path cause => some (compose ("While ftruncate " ++ path) cause.message)
  | .swapFileNotMapped path cause => some (compose ("While mmap " ++ path) cause.message)
  | .memoryNotStarted region => some (compose "Page memory is not started" region)
  | .outOfMemory region initial max loaded =>
    some (compose "Out of memory in region"
      ("name=" ++ region ++ ", initial_size=" ++ Quantity.human initial ++ ", max_size="
        ++ Quantity.human max ++ ", loaded_pages=" ++ toString loaded.toNat))
  | .pageNotAllocated page => some (compose "Page is not allocated" page.text)
  | .pageStillHoldsRows page => some (compose "Page still holds rows" page.text)
  | .pageAlreadyRecycled page => some (compose "Page is already recycled" page.text)
  | .pageNotInRegion region page =>
    some (compose "Page is not allocated in region" (region ++ ", page=" ++ page.text))
  | .noRecycledPage region => some (compose "No recycled pages in region" region)
  | .emptyRow => some "Row size must be positive"
  | .rowTooLarge row capacity =>
    some (compose "Row does not fit in a data page"
      ("row_size=" ++ toString row.toNat ++ ", page_capacity=" ++ toString capacity.toNat))
  | .pageHoldsNoRows page => some (compose "Page holds no rows" page.text)
  | .rowNotOnPage page row used =>
    some (compose "Row is larger than the data on the page"
      ("page=" ++ page.text ++ ", row_size=" ++ toString row.toNat ++ ", used_bytes="
        ++ toString used.toNat))
  | .nothingTracked =>
    some (compose "Too many failed attempts to evict page" "no tracked data pages")
  | .evictionAttemptsUsedUp attempts =>
    some (compose "Too many failed attempts to evict page" ("attempts=" ++ toString attempts))
  | .registryInactive => some "Region registry is not active"
  | .regionUnknown name => some (compose "Requested region is not configured" name)
  | .regionNameInUse name => some (compose "Region name is already in use" name)
  | .swapDirectoryFailed region directory cause =>
    some (compose ("Failed to create swap directory of region " ++ region)
      (directory ++ ": " ++ cause.kind.heading ++ ((words? cause).map Text.visible).getD ""))
  | .foreignRegion name => some (compose "Region does not belong to this registry" name)
  | .reported _ message detail => message.map (compose · detail)

/-- What is known of a fault beside its kind: text that ends at its first NUL byte. -/
def state? (f : Fault) : Option String := (words? f).map Text.visible

def text (f : Fault) : String := f.kind.heading ++ f.state?.getD ""

end Fault

/-- The outcome of an operation that returns nothing else. -/
inductive Status where
  | ok
  | failed (fault : Fault)
  deriving DecidableEq, Repr

namespace Status

/-- The number of a status: 0 for success, otherwise that of the fault's kind. -/
def code : Status → Nat
  | .ok => 0
  | .failed f => f.kind.code

def state? : Status → Option String
  | .ok => none
  | .failed f => f.state?

def text : Status → String
  | .ok => "OK"
  | .failed f => f.text

def fault? : Status → Option Fault
  | .ok => none
  | .failed f => some f

/-- How a status is asked for: the name of the question that it answers with yes. -/
def name : Status → String
  | .ok => "ok"
  | .failed f => f.kind.name

/-- Two statuses count as the same if their kinds are. -/
def sameKind (s t : Status) : Bool := s.code = t.code

/-- Hands a status on. What is left behind says success. -/
def take (s : Status) : Status × Status := (s, .ok)

end Status

end PageRegions
