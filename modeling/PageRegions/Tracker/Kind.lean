import PageRegions.Options.Settings

/-!
# Kinds of trackers

Which tracker a region gets follows from its eviction mode and from two flags for all regions: no
page of a region that is kept on disk is ever evicted, and the fair queue, if it is asked for, takes
the place of whatever the mode names.
-/

set_option autoImplicit false

namespace PageRegions

inductive TrackerKind where
  | idle
  | lru
  | lru2
  | fairQueue
  deriving DecidableEq, Repr

namespace TrackerKind

def code : TrackerKind → Nat
  | .idle => 0
  | .lru => 1
  | .lru2 => 2
  | .fairQueue => 3

def ofCode? : Nat → Option TrackerKind
  | 0 => some .idle
  | 1 => some .lru
  | 2 => some .lru2
  | 3 => some .fairQueue
  | _ => none

/-- How a kind is named where kinds are listed. -/
def kindName : TrackerKind → String
  | .idle => "kNoOp"
  | .lru => "kRandomLRU"
  | .lru2 => "kRandom2LRU"
  | .fairQueue => "kFairFifo"

/-- How the number of a kind is named, whether there is such a kind or not. -/
def nameOfCode (code : Nat) : String := ((ofCode? code).map kindName).getD "kUnknown"

def trackerName : TrackerKind → String
  | .idle => "NoOpPageEvictionTracker"
  | .lru => "RandomLRUPageEvictionTracker"
  | .lru2 => "Random2LRUPageEvictionTracker"
  | .fairQueue => "FairFifoPageEvictionTracker"

/-- The kind of tracker for a region. -/
def select (mode : EvictionMode) (persistence fairFifo : Bool) : TrackerKind :=
  if persistence ∨ mode = .disabled then .idle
  else if fairFifo then .fairQueue
  else
    match mode with
    | .lru => .lru
    | .lru2 => .lru2
    | _ => .idle

end TrackerKind

end PageRegions
