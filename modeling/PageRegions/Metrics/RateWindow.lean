import PageRegions.Number.Binary64

/-!
# Rates over a sliding window

A window counts what happened lately. It is divided into buckets of equal length, and time into
slots of that length; a slot is counted in the bucket of its number modulo the count of buckets.
When the clock reaches a later slot, the buckets of all slots that came in between are emptied,
because what they held is older than the window (`roll`).

A clock that was set back reaches no later slot. What is counted then lands in the bucket of its
slot as always.
-/

set_option autoImplicit false

namespace PageRegions

/-- Counts over a sliding window of time. -/
structure RateWindow where
  /-- The length of the window, in milliseconds. -/
  interval : Int64
  subIntervals : Int32
  /-- The length of a bucket, in microseconds. -/
  bucketMicros : UInt64
  buckets : Array UInt64
  /-- The latest slot that the clock has reached. -/
  lastSlot : UInt64
  deriving DecidableEq, Repr

namespace RateWindow

/-- The length of a bucket: the length of the window in microseconds, a 64-bit word, divided by the
count of buckets, and at least one microsecond. -/
def bucketLength (interval : Int64) (subIntervals : Int32) : UInt64 :=
  max 1 (interval.toUInt64 * 1000 / subIntervals.toInt64.toUInt64)

def fresh (now : UInt64) (interval : Int64) (subIntervals : Int32) : RateWindow :=
  let length := bucketLength interval subIntervals
  ⟨interval, subIntervals, length, Array.replicate subIntervals.toInt.toNat 0, now / length⟩

def slotAt (w : RateWindow) (now : UInt64) : UInt64 := now / w.bucketMicros

def bucketOf (w : RateWindow) (slot : UInt64) : Nat := slot.toNat % w.buckets.size

def clearAfter (size : Nat) (slot : UInt64) : Nat → Array UInt64 → Array UInt64
  | 0, buckets => buckets
  | count + 1, buckets =>
    (clearAfter size slot count buckets).setIfInBounds
      ((slot + UInt64.ofNat (count + 1)).toNat % size) 0

def roll (w : RateWindow) (slot : UInt64) : RateWindow :=
  if slot ≤ w.lastSlot then w
  else
    let expired := min (slot - w.lastSlot).toNat w.buckets.size
    { w with
      buckets := clearAfter w.buckets.size w.lastSlot expired w.buckets
      lastSlot := slot }

def hit (w : RateWindow) (now hits : UInt64) : RateWindow :=
  let slot := w.slotAt now
  let rolled := w.roll slot
  { rolled with buckets := rolled.buckets.modify (rolled.bucketOf slot) (· + hits) }

/-- The sum over all buckets, modulo 2 to the power 64. -/
def sum (w : RateWindow) : UInt64 := w.buckets.foldl (· + ·) 0

/-- The window as it is now. Its sum is the count of hits. -/
def current (w : RateWindow) (now : UInt64) : RateWindow := w.roll (w.slotAt now)

/-- The hits per second of a window that holds `count` of them. -/
def perSecond (w : RateWindow) (count : UInt64) : Binary64 :=
  ((Binary64.ofNat count.toNat).mul (Binary64.ofNat 1000)).div (Binary64.ofInt w.interval.toInt)

def rate (w : RateWindow) (now : UInt64) : Binary64 × RateWindow :=
  let w := w.current now
  (w.perSecond w.sum, w)

def withInterval (w : RateWindow) (now : UInt64) (interval : Int64) : RateWindow :=
  fresh now interval w.subIntervals

/-- An empty window with another count of buckets. -/
def withSubIntervals (w : RateWindow) (now : UInt64) (subIntervals : Int32) : RateWindow :=
  fresh now w.interval subIntervals

end RateWindow

end PageRegions
