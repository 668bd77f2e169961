import PageRegions.Metrics.RegionMetrics
import PageRegions.Proofs.Metrics.SlidingCount
import PageRegions.Proofs.Options.Decided

/-!
# How long a window is

The windows of a region's metrics are set up with a length in milliseconds and a count of buckets
(`Shape`), first from the settings of the region and later by whoever asks for others. Each of the
two numbers is checked by itself. What a window goes by in the end is neither of them but the length
of one bucket, and the time it really covers is that of all its buckets (`covered`).

The two lengths agree up to rounding if there is at least a microsecond for each bucket and the
microseconds of the window are a 64-bit word, and only then (`Spans.agree`). With more buckets than
microseconds a window is longer than it was asked to be, because no bucket is shorter than a
microsecond; with more microseconds than a word holds it is shorter by almost all of them. A rate is
divided by the length that was asked for all the same.

The invariant (`Shaped`) says that the ring and the bucket length are those of the shape that was
asked for last. No call but the two that ask for another shape touches either.
-/

set_option autoImplicit false

namespace PageRegions

/-! ## Shapes that are asked for -/

/-- What a window is asked to be. -/
structure Shape where
  /-- Its length in milliseconds. -/
  interval : Int64
  /-- How many buckets it is divided into. -/
  subIntervals : Int32
  deriving DecidableEq, Repr

/-- What the metrics of a region are asked for. -/
inductive MetricsCall where
  | countPages (change : Int64)
  | countEviction
  | setEnabled (on : Bool)
  | setRateInterval (ms : Int64)
  | setSubIntervals (count : Int32)
  | allocationRate
  | evictionRate
  | snapshot (directory : ListDirectory)

/-- The metrics after a call. -/
def RegionMetrics.perform (m : RegionMetrics) (now : UInt64) : MetricsCall → RegionMetrics
  | .countPages change => m.countPages now change
  | .countEviction => m.countEviction now
  | .setEnabled on => m.setEnabled on
  | .setRateInterval ms => (m.setRateInterval now ms).2
  | .setSubIntervals count => (m.setSubIntervals now count).2
  | .allocationRate => (m.allocationRate now).2
  | .evictionRate => (m.evictionRate now).2
  | .snapshot directory => (m.snapshot now directory).2

namespace Shape

/-- The shape that is asked for after a call: a length under a second and a count that is not
positive are refused. -/
def after (s : Shape) : MetricsCall → Shape
  | .setRateInterval ms => if leastRateInterval ≤ ms.toInt then { s with interval := ms } else s
  | .setSubIntervals count => if 0 < count.toInt then { s with subIntervals := count } else s
  | _ => s

/-- The length in microseconds. -/
def micros (s : Shape) : Nat := s.interval.toInt.toNat * 1000

def count (s : Shape) : Nat := s.subIntervals.toInt.toNat

/-- A shape that is not refused. -/
structure Accepted (s : Shape) : Prop where
  interval : leastRateInterval ≤ s.interval.toInt
  count : 0 < s.subIntervals.toInt

theorem Accepted.after {s : Shape} (hs : s.Accepted) (call : MetricsCall) :
    (s.after call).Accepted := by
  cases call with
  | setRateInterval ms =>
    change (if leastRateInterval ≤ ms.toInt then { s with interval := ms } else s).Accepted
    split
    · next hms => exact ⟨hms, hs.count⟩
    · exact hs
  | setSubIntervals count =>
    change (if 0 < count.toInt then { s with subIntervals := count } else s).Accepted
    split
    · next hcount => exact ⟨hs.interval, hcount⟩
    · exact hs
  | _ => exact hs

end Shape

/-- Metrics in use, with the shape that was asked for last. The clock may be set back. -/
inductive Configured : RegionMetrics → Shape → Prop
  | fresh {o : RegionOptions} (accepted : Rules.rateWindow o = .ok ()) (now : UInt64)
      (link? : Option ListLink) :
      Configured (RegionMetrics.fresh now o link?) ⟨o.rateInterval, o.subIntervals⟩
  | perform {m : RegionMetrics} {s : Shape} (before : Configured m s) (now : UInt64)
      (call : MetricsCall) : Configured (m.perform now call) (s.after call)

theorem Configured.accepted {m : RegionMetrics} {s : Shape} (h : Configured m s) : s.Accepted := by
  induction h with
  | fresh accepted =>
    obtain ⟨hinterval, hcount⟩ := Rules.rateWindow_ok.mp accepted
    exact ⟨hinterval, hcount⟩
  | perform _ _ call ih => exact ih.after call

/-! ## What windows keep of it -/

namespace RateWindow

variable {w : RateWindow} {s : Shape}

/-- A window of the given shape. -/
structure Shaped (w : RateWindow) (s : Shape) : Prop where
  interval : w.interval = s.interval
  subIntervals : w.subIntervals = s.subIntervals
  size : w.buckets.size = s.count
  length : w.bucketMicros = bucketLength s.interval s.subIntervals

theorem shaped_fresh (now : UInt64) (s : Shape) :
    (fresh now s.interval s.subIntervals).Shaped s :=
  ⟨rfl, rfl, Array.size_replicate, rfl⟩

theorem Shaped.withInterval (hw : w.Shaped s) (now : UInt64) (interval : Int64) :
    (w.withInterval now interval).Shaped { s with interval := interval } := by
  unfold RateWindow.withInterval
  rw [hw.subIntervals]
  exact shaped_fresh now { s with interval := interval }

theorem Shaped.withSubIntervals (hw : w.Shaped s) (now : UInt64) (count : Int32) :
    (w.withSubIntervals now count).Shaped { s with subIntervals := count } := by
  unfold RateWindow.withSubIntervals
  rw [hw.interval]
  exact shaped_fresh now { s with subIntervals := count }

theorem Shaped.roll (hw : w.Shaped s) (slot : UInt64) : (w.roll slot).Shaped s := by
  unfold RateWindow.roll
  split
  · exact hw
  · exact ⟨hw.interval, hw.subIntervals, size_clearAfter.trans hw.size, hw.length⟩

theorem Shaped.hit (hw : w.Shaped s) (now hits : UInt64) : (w.hit now hits).Shaped s := by
  obtain ⟨hinterval, hsub, hsize, hlength⟩ := hw.roll (w.slotAt now)
  exact ⟨hinterval, hsub, Array.size_modify.trans hsize, hlength⟩

/-- The time in microseconds that the buckets of a window stand for. -/
def covered (w : RateWindow) : Nat := w.buckets.size * w.bucketMicros.toNat

/-- That is how far back a window looks, but for what its latest slot has not reached yet: what is
counted is no older, and what is younger by a slot is counted. -/
theorem latest_age {e : Hits} {log : List Hits} {length slots now : Nat} (hlength : 0 < length)
    (he : e ∈ log) :
    (e ∈ Hits.latest length slots now log → now < e.time.toNat + slots * length)
      ∧ (now + length ≤ e.time.toNat + slots * length → e ∈ Hits.latest length slots now log) := by
  have hmem : e ∈ Hits.latest length slots now log ↔ now / length < e.slot length + slots := by
    unfold Hits.latest
    rw [List.mem_filter, decide_eq_true_eq, sub_lt_iff_lt_add]
    exact ⟨fun h => by exact_mod_cast h.2, fun h => ⟨he, by exact_mod_cast h⟩⟩
  have hslot : e.slot length * length ≤ e.time.toNat := Nat.div_mul_le_self ..
  have hslot' : e.time.toNat < e.slot length * length + length :=
    Nat.lt_div_mul_add hlength
  have hnow : now / length * length ≤ now := Nat.div_mul_le_self ..
  have hnow' : now < now / length * length + length := Nat.lt_div_mul_add hlength
  rw [hmem]
  constructor
  · intro hlatest
    have hscaled := Nat.mul_le_mul_right length (Nat.succ_le_of_lt hlatest)
    rw [Nat.succ_mul, Nat.add_mul] at hscaled
    omega
  · intro hyoung
    by_contra hold
    have hscaled := Nat.mul_le_mul_right length (Nat.le_of_not_lt hold)
    rw [Nat.add_mul] at hscaled
    omega

/-- How long a window of a shape is. -/
structure Spans (w : RateWindow) (s : Shape) : Prop where
  /-- The time covered is what was asked for, up to the rounding of the buckets, just if there is a
  microsecond for each bucket and the microseconds are a word. -/
  agree : (w.covered ≤ s.micros ∧ s.micros < w.covered + s.count)
    ↔ (s.count ≤ s.micros ∧ s.micros < 2 ^ 64)
  /-- With more buckets than microseconds each is one microsecond long. -/
  crowded : s.micros < s.count → w.covered = s.count
  /-- With more microseconds than a word holds all but a remainder are lost. -/
  wrapped : 2 ^ 64 ≤ s.micros → w.covered + (2 ^ 64 - 2 ^ 31) ≤ s.micros
  /-- A rate is divided by the length that was asked for. -/
  divides : ∀ hits, w.perSecond hits = ((Binary64.ofNat hits.toNat).mul (Binary64.ofNat 1000)).div
    (Binary64.ofInt s.interval.toInt)

theorem Shaped.covered_eq (hw : w.Shaped s) (hs : s.Accepted) :
    w.covered = s.count * max 1 (s.micros % 2 ^ 64 / s.count) := by
  have hinterval := hs.interval
  unfold leastRateInterval at hinterval
  unfold covered
  rw [hw.size, hw.length, toNat_bucketLength_mod (by omega) hs.count]
  rfl

theorem Shaped.spans (hw : w.Shaped s) (hs : s.Accepted) : w.Spans s := by
  have hcovered := hw.covered_eq hs
  have hpos : 0 < s.count := by
    have hcount := hs.count
    unfold Shape.count
    omega
  have hsmall : s.count < 2 ^ 31 := by
    have hlt := s.subIntervals.toInt_lt
    unfold Shape.count
    omega
  have hlow := Nat.mul_div_le (s.micros % 2 ^ 64) s.count
  have hhigh := Nat.lt_mul_div_succ (s.micros % 2 ^ 64) hpos
  generalize hbucket : s.micros % 2 ^ 64 / s.count = bucket at hcovered hlow hhigh
  rw [Nat.mul_succ] at hhigh
  -- Either each bucket is one microsecond long, or the word is divided by their number.
  have hcases : bucket = 0 ∧ w.covered = s.count ∨ 1 ≤ bucket ∧ w.covered = s.count * bucket
      ∧ s.count ≤ s.count * bucket := by
    rcases Nat.eq_zero_or_pos bucket with hzero | hone
    · left
      rw [hzero, Nat.max_eq_left (Nat.zero_le _), Nat.mul_one] at hcovered
      exact ⟨hzero, hcovered⟩
    · right
      rw [Nat.max_eq_right hone] at hcovered
      exact ⟨hone, hcovered, Nat.le_mul_of_pos_right _ hone⟩
  refine ⟨⟨fun hlength => ?_, fun hregular => ?_⟩, fun hcrowded => ?_, fun hwrapped => ?_,
    fun hits => ?_⟩
  · rcases hcases with ⟨hzero, heq⟩ | ⟨hone, heq, hle⟩ <;> omega
  · rcases hcases with ⟨hzero, heq⟩ | ⟨hone, heq, hle⟩
    · rw [hzero, Nat.mul_zero] at hhigh
      omega
    · omega
  · rcases hcases with ⟨hzero, heq⟩ | ⟨hone, heq, hle⟩ <;> omega
  · rcases hcases with ⟨hzero, heq⟩ | ⟨hone, heq, hle⟩ <;> omega
  · unfold perSecond
    rw [hw.interval]

end RateWindow

/-! ## The windows of a region -/

namespace RegionMetrics

variable {m : RegionMetrics} {s : Shape}

/-- Both windows have the given shape. -/
structure Shaped (m : RegionMetrics) (s : Shape) : Prop where
  allocation : m.allocation.Shaped s
  eviction : m.eviction.Shaped s

theorem shaped_fresh (now : UInt64) (o : RegionOptions) (link? : Option ListLink) :
    (fresh now o link?).Shaped ⟨o.rateInterval, o.subIntervals⟩ :=
  ⟨RateWindow.shaped_fresh now ⟨o.rateInterval, o.subIntervals⟩,
    RateWindow.shaped_fresh now ⟨o.rateInterval, o.subIntervals⟩⟩

theorem Shaped.countPages (hm : m.Shaped s) (now : UInt64) (change : Int64) :
    (m.countPages now change).Shaped s := by
  unfold RegionMetrics.countPages
  split
  · exact hm
  · split
    · exact ⟨hm.allocation, hm.eviction⟩
    · exact ⟨hm.allocation.hit _ _, hm.eviction⟩

theorem Shaped.countEviction (hm : m.Shaped s) (now : UInt64) :
    (m.countEviction now).Shaped s := by
  unfold RegionMetrics.countEviction
  split
  · exact ⟨hm.allocation, hm.eviction.hit _ _⟩
  · exact hm

theorem Shaped.allocationRate (hm : m.Shaped s) (now : UInt64) :
    (m.allocationRate now).2.Shaped s := by
  unfold RegionMetrics.allocationRate
  split
  · exact hm
  · exact ⟨hm.allocation.roll _, hm.eviction⟩

theorem Shaped.evictionRate (hm : m.Shaped s) (now : UInt64) :
    (m.evictionRate now).2.Shaped s := by
  unfold RegionMetrics.evictionRate
  split
  · exact hm
  · exact ⟨hm.allocation, hm.eviction.roll _⟩

theorem Shaped.fillFactor (hm : m.Shaped s) (directory : ListDirectory) :
    (m.fillFactor directory).2.Shaped s := by
  have hlinked : ∀ link? : Option ListLink, ({ m with link? := link? } : RegionMetrics).Shaped s :=
    fun _ => ⟨hm.allocation, hm.eviction⟩
  unfold RegionMetrics.fillFactor
  grind

theorem Shaped.setRateInterval (hm : m.Shaped s) (now : UInt64) (ms : Int64) :
    (m.setRateInterval now ms).2.Shaped (s.after (.setRateInterval ms)) := by
  unfold RegionMetrics.setRateInterval
  by_cases hms : leastRateInterval ≤ ms.toInt
  · have hlong : ¬ ms.toInt < 1000 := Int.not_lt.mpr hms
    rw [if_neg hlong, Shape.after, if_pos hms]
    exact ⟨hm.allocation.withInterval now ms, hm.eviction.withInterval now ms⟩
  · have hshort : ms.toInt < 1000 := Int.not_le.mp hms
    rw [if_pos hshort, Shape.after, if_neg hms]
    exact hm

theorem Shaped.setSubIntervals (hm : m.Shaped s) (now : UInt64) (count : Int32) :
    (m.setSubIntervals now count).2.Shaped (s.after (.setSubIntervals count)) := by
  unfold RegionMetrics.setSubIntervals
  by_cases hcount : 0 < count.toInt
  · rw [if_neg (Int.not_le.mpr hcount), Shape.after, if_pos hcount]
    exact ⟨hm.allocation.withSubIntervals now count, hm.eviction.withSubIntervals now count⟩
  · rw [if_pos (Int.not_lt.mp hcount), Shape.after, if_neg hcount]
    exact hm

/-- One call keeps the windows in the shape that was asked for last. -/
theorem Shaped.perform (hm : m.Shaped s) (now : UInt64) (call : MetricsCall) :
    (m.perform now call).Shaped (s.after call) := by
  cases call with
  | countPages change => exact hm.countPages now change
  | countEviction => exact hm.countEviction now
  | setEnabled on => exact ⟨hm.allocation, hm.eviction⟩
  | setRateInterval ms => exact hm.setRateInterval now ms
  | setSubIntervals count => exact hm.setSubIntervals now count
  | allocationRate => exact hm.allocationRate now
  | evictionRate => exact hm.evictionRate now
  | snapshot directory => exact ((hm.allocationRate now).evictionRate now).fillFactor directory

end RegionMetrics

variable {m : RegionMetrics} {s : Shape}

theorem Configured.shaped (h : Configured m s) : m.Shaped s := by
  induction h with
  | fresh _ now link? => exact RegionMetrics.shaped_fresh now _ link?
  | perform _ now call ih => exact ih.perform now call

/-- **How long the windows of a region are**, whatever its metrics were asked for: as long as they
were asked to be, up to the rounding of the buckets, just if there is a microsecond for each bucket
and the microseconds are a word. -/
theorem windows_span (h : Configured m s) : m.allocation.Spans s ∧ m.eviction.Spans s :=
  ⟨h.shaped.allocation.spans h.accepted, h.shaped.eviction.spans h.accepted⟩

/-- The usual settings, but for the shape of the windows. -/
def Shape.options (s : Shape) : RegionOptions :=
  { RegionOptions.usual ⟨4194304, 4096⟩ "r" with
    rateInterval := s.interval
    subIntervals := s.subIntervals }

/-- Ten seconds in three buckets: each lacks a third of a microsecond, so the window lacks one. -/
theorem windows_span_thirds :
    Configured (((RegionMetrics.fresh 0 (Shape.options ⟨60000, 5⟩) none).perform 4
        (.setRateInterval 10000)).perform 9 (.setSubIntervals 3)) ⟨10000, 3⟩
      ∧ (((RegionMetrics.fresh 0 (Shape.options ⟨60000, 5⟩) none).perform 4
        (.setRateInterval 10000)).perform 9 (.setSubIntervals 3)).allocation.Spans ⟨10000, 3⟩ := by
  have hreached : Configured (((RegionMetrics.fresh 0 (Shape.options ⟨60000, 5⟩) none).perform 4
      (.setRateInterval 10000)).perform 9 (.setSubIntervals 3)) ⟨10000, 3⟩ :=
    ((Configured.fresh (Rules.rateWindow_ok.mpr ⟨by decide, by decide⟩) 0 none).perform 4
      (.setRateInterval 10000)).perform 9 (.setSubIntervals 3)
  exact ⟨hreached, (windows_span hreached).1⟩

/-- A window of more microseconds than a word holds is 384 of them long, and one of a second that is
divided into two million buckets is two seconds long. -/
theorem windows_span_otherwise :
    (Rules.rateWindow (Shape.options ⟨18446744073709552, 1⟩) = .ok ()
      ∧ (RegionMetrics.fresh 0 (Shape.options ⟨18446744073709552, 1⟩) none).allocation.covered = 384
      ∧ Shape.micros ⟨18446744073709552, 1⟩ = 18446744073709552000)
    ∧ (Rules.rateWindow (Shape.options ⟨1000, 2000000⟩) = .ok ()
      ∧ (RegionMetrics.fresh 0 (Shape.options ⟨1000, 2000000⟩) none).allocation.covered = 2000000
      ∧ Shape.micros ⟨1000, 2000000⟩ = 1000000) := by
  have hcovered : ∀ s : Shape, s.Accepted →
      (RegionMetrics.fresh 0 s.options none).allocation.covered
        = s.count * max 1 (s.micros % 2 ^ 64 / s.count) :=
    fun s hs => (RegionMetrics.shaped_fresh 0 s.options none).allocation.covered_eq hs
  refine ⟨⟨Rules.rateWindow_ok.mpr ⟨by decide, by decide⟩, ?_, by decide⟩,
    ⟨Rules.rateWindow_ok.mpr ⟨by decide, by decide⟩, ?_, by decide⟩⟩
  · rw [hcovered _ ⟨by decide, by decide⟩]
    decide
  · rw [hcovered _ ⟨by decide, by decide⟩]
    decide

end PageRegions
