import PageRegions.Metrics.RateWindow
import PageRegions.Options.Settings

/-!
# The metrics of a region

A region counts the pages that are allocated in it, the rates at which it allocates and evicts
pages, and how full its pages are. While counting is switched off nothing is counted and every rate
is zero; the count of pages stays what it was.

How full pages are is known to the free list of the region, and that is looked up by name in a
directory that may not have it yet. Once found it is remembered.
-/

set_option autoImplicit false

namespace PageRegions

/-- Where free lists are found by the names of their regions: which there are, and how many bytes
of a list's pages are used, of how many in all. -/
structure ListDirectory where
  publishes : String → Bool
  fill : String → Nat × Nat

def ListDirectory.empty : ListDirectory := ⟨fun _ => false, fun _ => (0, 0)⟩

/-- The directory with a list that is filled as told. -/
def ListDirectory.publish (d : ListDirectory) (name : String) (fill : Nat × Nat) :
    ListDirectory where
  publishes other := decide (other = name) || d.publishes other
  fill other := if other = name then fill else d.fill other

/-- The directory without a list. Those who found the list before still see how it is filled. -/
def ListDirectory.retract (d : ListDirectory) (name : String) : ListDirectory :=
  { d with publishes := fun other => decide (other ≠ name) && d.publishes other }

/-- What the metrics of a region know of its free list. -/
structure ListLink where
  hasDirectory : Bool
  found : Bool
  lookups : Nat
  deriving DecidableEq, Repr

structure RegionMetrics where
  name : String
  enabled : Bool
  /-- Pages allocated less pages freed, as far as they were counted. -/
  total : Int64
  allocation : RateWindow
  eviction : RateWindow
  /-- The way to the free list, if fill is measured at all. -/
  link? : Option ListLink
  deriving DecidableEq, Repr

structure MetricsSnapshot where
  name : String
  enabled : Bool
  total : UInt64
  allocationRate : Binary64
  evictionRate : Binary64
  fillFactor : Binary64
  deriving DecidableEq, Repr

def MetricsSnapshot.textLimit : Nat := 255

def MetricsSnapshot.text (s : MetricsSnapshot) : String :=
  Text.cut textLimit ("RegionMetrics [name=" ++ Text.visible s.name ++ ", enabled="
    ++ flag s.enabled ++ ", total_allocated_pages=" ++ toString s.total.toNat
    ++ ", allocation_rate=" ++ s.allocationRate.toFixed 2 ++ "/s, eviction_rate="
    ++ s.evictionRate.toFixed 2 ++ "/s, pages_fill_factor=" ++ s.fillFactor.toFixed 3 ++ "]")

namespace RegionMetrics

/-- The metrics of a region that starts to be counted now. -/
def fresh (now : UInt64) (o : RegionOptions) (link? : Option ListLink) : RegionMetrics where
  name := o.name
  enabled := o.metricsEnabled
  total := 0
  allocation := RateWindow.fresh now o.rateInterval o.subIntervals
  eviction := RateWindow.fresh now o.rateInterval o.subIntervals
  link? := link?

def setEnabled (m : RegionMetrics) (on : Bool) : RegionMetrics := { m with enabled := on }

/-- Counts pages that were allocated, or freed if the change is negative. -/
def countPages (m : RegionMetrics) (now : UInt64) (change : Int64) : RegionMetrics :=
  if !m.enabled then m
  else if change ≤ 0 then { m with total := m.total + change }
  else
    { m with
      total := m.total + change
      allocation := m.allocation.hit now change.toUInt64 }

def countEviction (m : RegionMetrics) (now : UInt64) : RegionMetrics :=
  if m.enabled then { m with eviction := m.eviction.hit now 1 } else m

def totalPages (m : RegionMetrics) : UInt64 := if m.total < 0 then 0 else m.total.toUInt64

def allocationRate (m : RegionMetrics) (now : UInt64) : Binary64 × RegionMetrics :=
  if !m.enabled then (Binary64.zero, m)
  else
    let (rate, window) := m.allocation.rate now
    (rate, { m with allocation := window })

def evictionRate (m : RegionMetrics) (now : UInt64) : Binary64 × RegionMetrics :=
  if !m.enabled then (Binary64.zero, m)
  else
    let (rate, window) := m.eviction.rate now
    (rate, { m with eviction := window })

/-- The share of bytes in use, of a list's pages; zero if it has none. -/
def fillOf (used total : Nat) : Binary64 :=
  if total = 0 then Binary64.zero else (Binary64.ofNat used).div (Binary64.ofNat total)

def fillFactor (m : RegionMetrics) (directory : ListDirectory) : Binary64 × RegionMetrics :=
  match m.link? with
  | none => (Binary64.zero, m)
  | some link =>
    if !m.enabled then (Binary64.zero, m)
    else
      let (used, total) := directory.fill m.name
      if link.found then (fillOf used total, m)
      else if !link.hasDirectory then (Binary64.zero, m)
      else
        let asked := { link with lookups := link.lookups + 1 }
        if directory.publishes m.name then
          (fillOf used total, { m with link? := some { asked with found := true } })
        else (Binary64.zero, { m with link? := some asked })

def snapshot (m : RegionMetrics) (now : UInt64) (directory : ListDirectory) :
    MetricsSnapshot × RegionMetrics :=
  let (allocation, m) := m.allocationRate now
  let (eviction, m) := m.evictionRate now
  let (fill, m) := m.fillFactor directory
  (⟨m.name, m.enabled, m.totalPages, allocation, eviction, fill⟩, m)

/-- Counts over windows of another length. What was counted is lost. -/
def setRateInterval (m : RegionMetrics) (now : UInt64) (ms : Int64) :
    Except Fault Unit × RegionMetrics :=
  if ms.toInt < 1000 then (.error (.rateIntervalTooShort m.name ms), m)
  else
    (.ok (),
      { m with
        allocation := m.allocation.withInterval now ms
        eviction := m.eviction.withInterval now ms })

/-- Counts over windows with another count of buckets. What was counted is lost. -/
def setSubIntervals (m : RegionMetrics) (now : UInt64) (count : Int32) :
    Except Fault Unit × RegionMetrics :=
  if count.toInt ≤ 0 then (.error (.subIntervalsNotPositive m.name count), m)
  else
    (.ok (),
      { m with
        allocation := m.allocation.withSubIntervals now count
        eviction := m.eviction.withSubIntervals now count })

end RegionMetrics

end PageRegions
