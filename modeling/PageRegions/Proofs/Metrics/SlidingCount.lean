import Mathlib.Algebra.BigOperators.Group.Finset.Piecewise
import Mathlib.Data.UInt
import PageRegions.Metrics.RateWindow

/-!
# What a sliding window counts

A window remembers no times. It has a ring of buckets, and it empties those that are out of date
only when somebody looks at the clock, be it to count or to read. Here the hits are kept with their
times beside it (`Used`), and what a window says is compared with them: it is the number of hits in
its latest slots, as many slots as it has buckets, and nothing else (`used_sum`).

What carries the induction is a statement about one bucket (`Counts.buckets`): it holds the hits of
the slots that share it, as far as they are not out of date. That no two of those slots are in date
at once is never needed. When the clock moves on, a bucket is emptied just if some slot of it falls
due, and this takes the later slots one by one, so a gap of any length is no case of its own.
-/

set_option autoImplicit false

namespace PageRegions

/-- Hits that were counted at one time. -/
structure Hits where
  time : UInt64
  count : UInt64
  deriving DecidableEq, Repr

namespace Hits

/-- The slot that hits fall in, if slots have the given length. -/
def slot (length : Nat) (e : Hits) : Nat := e.time.toNat / length

/-- The hits of the latest slots, up to that of a time. -/
def latest (length slots now : Nat) (log : List Hits) : List Hits :=
  log.filter fun e => ((now / length : Nat) : Int) - slots < e.slot length

/-- How many hits there are. -/
def number (log : List Hits) : Nat := (log.map (·.count.toNat)).sum

/-- How many hits there are, as the words of a window count them. -/
def total (log : List Hits) : UInt64 := (log.map (·.count)).sum

@[simp] theorem total_cons (e : Hits) (log : List Hits) : total (e :: log) = e.count + total log :=
  rfl

@[simp] theorem total_append (log more : List Hits) :
    total (log ++ more) = total log + total more := by
  unfold total
  rw [List.map_append, List.sum_append]

theorem total_filter_cons (p : Hits → Bool) (e : Hits) (log : List Hits) :
    total ((e :: log).filter p) = (if p e then e.count else 0) + total (log.filter p) := by
  rw [List.filter_cons]
  split
  · exact total_cons ..
  · exact (zero_add _).symm

theorem toNat_total (log : List Hits) : (total log).toNat = number log % 2 ^ 64 := by
  induction log with
  | nil => rfl
  | cons e log ih =>
    rw [total_cons, UInt64.toNat_add, ih, Nat.add_mod_mod]
    rfl

/-- Hits are counted once if they are counted by what their slots leave behind a division. -/
theorem sum_total_filter {length count : Nat} (hcount : 0 < count) (p : Hits → Prop)
    [DecidablePred p] (log : List Hits) :
    ∑ i ∈ Finset.range count, total (log.filter fun e => e.slot length % count = i ∧ p e)
      = total (log.filter p) := by
  induction log with
  | nil => exact Finset.sum_const_zero
  | cons e log ih =>
    have hone : ∑ i ∈ Finset.range count, (if e.slot length % count = i ∧ p e then e.count else 0)
        = if p e then e.count else 0 := by
      by_cases hp : p e
      · simp only [hp, and_true, if_true, Finset.sum_ite_eq, Finset.mem_range]
        exact if_pos (Nat.mod_lt _ hcount)
      · simp only [hp, and_false, if_false, Finset.sum_const_zero]
    simp only [total_filter_cons, decide_eq_true_eq, Finset.sum_add_distrib, hone, ih]

end Hits

namespace RateWindow

variable {w : RateWindow} {log : List Hits} {last now : UInt64}

/-! ## Windows in use -/

/-- A window in use, with the hits that it counted since it was last emptied and the time at which
the clock was last looked at. The clock is not set back. -/
inductive Used : RateWindow → List Hits → UInt64 → Prop
  | fresh (now : UInt64) (interval : Int64) (subIntervals : Int32) :
      Used (fresh now interval subIntervals) [] now
  | withInterval {w : RateWindow} {log : List Hits} {last : UInt64} (before : Used w log last)
      (now : UInt64) (interval : Int64) : Used (w.withInterval now interval) [] now
  | withSubIntervals {w : RateWindow} {log : List Hits} {last : UInt64} (before : Used w log last)
      (now : UInt64) (subIntervals : Int32) : Used (w.withSubIntervals now subIntervals) [] now
  | hit {w : RateWindow} {log : List Hits} {last : UInt64} (before : Used w log last)
      (now count : UInt64) (later : last ≤ now) : Used (w.hit now count) (log ++ [⟨now, count⟩]) now
  | read {w : RateWindow} {log : List Hits} {last : UInt64} (before : Used w log last)
      (now : UInt64) (later : last ≤ now) : Used (w.current now) log now

/-- The shapes of windows whose length in microseconds is a 64-bit word. -/
structure Regular (w : RateWindow) : Prop where
  interval : 1 ≤ w.interval.toInt
  subIntervals : 1 ≤ w.subIntervals.toInt
  micros : w.interval.toInt * 1000 < 2 ^ 64

/-- The length of a bucket in microseconds, without regard to words. -/
def micros (w : RateWindow) : Nat :=
  max 1 (w.interval.toInt.toNat * 1000 / w.subIntervals.toInt.toNat)

/-! ## Buckets that are emptied -/

section Clear

variable {size count i k : Nat} {slot : UInt64} {buckets : Array UInt64}

@[simp] theorem size_clearAfter : (clearAfter size slot count buckets).size = buckets.size := by
  induction count with
  | zero => rfl
  | succ count ih => rw [clearAfter, Array.size_setIfInBounds, ih]

theorem toNat_slot_add (hword : slot.toNat + count < 2 ^ 64) :
    (slot + UInt64.ofNat count).toNat = slot.toNat + count := by
  have hsmall : count < UInt64.size := by unfold UInt64.size; omega
  rw [UInt64.toNat_add, UInt64.toNat_ofNat_of_lt' hsmall, Nat.mod_eq_of_lt hword]

/-- The bucket of a slot that falls due is emptied. -/
theorem clearAfter_due (hword : slot.toNat + count < 2 ^ 64) (hsize : buckets.size = size)
    (hi : i < size) (hk : 1 ≤ k) (hle : k ≤ count) (hslot : (slot.toNat + k) % size = i) :
    (clearAfter size slot count buckets)[i]? = some 0 := by
  induction count with
  | zero => omega
  | succ count ih =>
    rw [clearAfter, Array.getElem?_setIfInBounds, toNat_slot_add hword, size_clearAfter, hsize]
    split
    · next heq => exact if_pos (heq ▸ hi)
    · next hne =>
      apply ih (by omega)
      rcases Nat.le_succ_iff.mp hle with hle | rfl
      · exact hle
      · exact absurd hslot hne

/-- All others stay. -/
theorem clearAfter_kept (hword : slot.toNat + count < 2 ^ 64)
    (hslots : ∀ k, 1 ≤ k → k ≤ count → (slot.toNat + k) % size ≠ i) :
    (clearAfter size slot count buckets)[i]? = buckets[i]? := by
  induction count with
  | zero => rfl
  | succ count ih =>
    rw [clearAfter, Array.getElem?_setIfInBounds, toNat_slot_add hword,
      if_neg (hslots (count + 1) (by omega) (Nat.le_refl _))]
    exact ih (by omega) fun k hk hle => hslots k hk (by omega)

end Clear

/-! ## What the buckets hold -/

/-- Whether hits belong to a bucket and are not out of date. -/
abbrev Holds (w : RateWindow) (i : Nat) (e : Hits) : Prop :=
  e.slot w.bucketMicros.toNat % w.buckets.size = i
    ∧ w.lastSlot.toNat < e.slot w.bucketMicros.toNat + w.buckets.size

/-- What a window has counted: its buckets have the shape that it was given, the clock was last
looked at in its last slot, and each bucket holds what belongs to it. -/
structure Counts (w : RateWindow) (log : List Hits) (last : UInt64) : Prop where
  size : w.buckets.size = w.subIntervals.toInt.toNat
  length : w.bucketMicros = bucketLength w.interval w.subIntervals
  slot : w.lastSlot = w.slotAt last
  past : ∀ e ∈ log, e.time ≤ last
  buckets : ∀ i < w.buckets.size, w.buckets[i]? = some (Hits.total (log.filter (w.Holds i)))

theorem slotAt_mono (hlater : last ≤ now) : w.slotAt last ≤ w.slotAt now := by
  unfold slotAt
  rw [UInt64.le_iff_toNat_le, UInt64.toNat_div, UInt64.toNat_div]
  exact Nat.div_le_div_right (UInt64.le_iff_toNat_le.mp hlater)

theorem toNat_slotAt (w : RateWindow) (e : Hits) :
    (w.slotAt e.time).toNat = e.slot w.bucketMicros.toNat := UInt64.toNat_div _ _

/-- No hit is of a slot that the clock has not reached. -/
theorem Counts.slot_le (hw : Counts w log last) {e : Hits} (he : e ∈ log) :
    e.slot w.bucketMicros.toNat ≤ w.lastSlot.toNat := by
  rw [hw.slot, ← toNat_slotAt]
  exact UInt64.le_iff_toNat_le.mp (slotAt_mono (hw.past e he))

theorem counts_fresh (now : UInt64) (interval : Int64) (subIntervals : Int32) :
    Counts (fresh now interval subIntervals) [] now where
  size := Array.size_replicate
  length := rfl
  slot := rfl
  past := List.forall_mem_nil _
  buckets i hi := by
    rw [fresh, Array.size_replicate] at hi
    rw [fresh, Array.getElem?_replicate, if_pos hi]
    rfl

/-- The clock moves on to a later slot. -/
theorem Counts.roll (hw : Counts w log last) (hlater : last ≤ now) :
    Counts (w.roll (w.slotAt now)) log now := by
  have hpast : ∀ e ∈ log, e.time ≤ now := fun e he => UInt64.le_trans (hw.past e he) hlater
  unfold RateWindow.roll
  split
  · next hle =>
    have hsame : w.lastSlot = w.slotAt now :=
      UInt64.le_antisymm (hw.slot ▸ slotAt_mono hlater) hle
    exact ⟨hw.size, hw.length, hsame, hpast, hw.buckets⟩
  · next hnew =>
    have hlt : w.lastSlot.toNat < (w.slotAt now).toNat :=
      UInt64.lt_iff_toNat_lt.mp (UInt64.not_le.mp hnew)
    have hsub : (w.slotAt now - w.lastSlot).toNat = (w.slotAt now).toNat - w.lastSlot.toNat :=
      UInt64.toNat_sub_of_le _ _ (UInt64.le_of_lt (UInt64.not_le.mp hnew))
    have hword : (w.slotAt now).toNat < 2 ^ 64 := UInt64.toNat_lt _
    generalize hexpired : min (w.slotAt now - w.lastSlot).toNat w.buckets.size = expired
    have hfits : w.lastSlot.toNat + expired < 2 ^ 64 := by omega
    refine ⟨size_clearAfter.trans hw.size, hw.length, rfl, hpast, fun i hi => ?_⟩
    simp only [size_clearAfter] at hi ⊢
    by_cases hdue : ∃ k, 1 ≤ k ∧ k ≤ expired ∧ (w.lastSlot.toNat + k) % w.buckets.size = i
    · -- Whatever was counted in an earlier slot of the bucket is out of date.
      obtain ⟨k, hk, hle, hslot⟩ := hdue
      rw [clearAfter_due hfits rfl hi hk hle hslot, List.filter_eq_nil_iff.mpr]
      · rfl
      intro e he
      have hreached := hw.slot_le he
      simp only [Holds, size_clearAfter, decide_eq_true_eq, not_and, not_lt]
      intro hbucket
      have hapart : e.slot w.bucketMicros.toNat + w.buckets.size ≤ w.lastSlot.toNat + k :=
        Nat.ModEq.add_le_of_lt (hbucket.trans hslot.symm) (by omega)
      omega
    · -- A bucket stays if nothing in it falls out of date.
      rw [clearAfter_kept hfits fun k hk hle hslot => hdue ⟨k, hk, hle, hslot⟩, hw.buckets i hi]
      congr 2
      refine List.filter_congr fun e he => ?_
      have hreached := hw.slot_le he
      simp only [Holds, size_clearAfter, decide_eq_decide, and_congr_right_iff]
      refine fun hbucket => ⟨fun hlive => ?_, fun hlive => by omega⟩
      by_contra hdead
      refine hdue ⟨e.slot w.bucketMicros.toNat + w.buckets.size - w.lastSlot.toNat, ?_, ?_, ?_⟩
      · omega
      · omega
      · rw [Nat.add_sub_cancel' (Nat.le_of_lt hlive), Nat.add_mod_right, hbucket]

theorem slotAt_roll (slot : UInt64) : (w.roll slot).slotAt now = w.slotAt now := by
  unfold roll
  split <;> rfl

/-- What is counted goes to the bucket of the last slot. -/
theorem Counts.add (hw : Counts w log now) {slot : UInt64} (hlast : w.lastSlot = slot)
    (count : UInt64) :
    Counts { w with buckets := w.buckets.modify (w.bucketOf slot) (· + count) }
      (log ++ [⟨now, count⟩]) now where
  size := Array.size_modify.trans hw.size
  length := hw.length
  slot := hw.slot
  past := List.forall_mem_append.mpr ⟨hw.past, List.forall_mem_singleton.mpr (UInt64.le_refl now)⟩
  buckets i hi := by
    rw [Array.size_modify] at hi
    subst hlast
    have hslot : Hits.slot w.bucketMicros.toNat ⟨now, count⟩ = w.lastSlot.toNat := by
      rw [← toNat_slotAt, hw.slot]
    have hlive : w.lastSlot.toNat < w.lastSlot.toNat + w.buckets.size := by omega
    simp only [Array.getElem?_modify, hw.buckets i hi, Holds, Array.size_modify,
      List.filter_append, Hits.total_append, Hits.total_filter_cons, hslot, hlive, and_true,
      decide_eq_true_eq, bucketOf]
    split
    · exact congrArg some (congrArg _ (add_zero count).symm)
    · exact congrArg some (add_zero _).symm

theorem Counts.hit (hw : Counts w log last) (hlater : last ≤ now) (count : UInt64) :
    Counts (w.hit now count) (log ++ [⟨now, count⟩]) now := by
  have hrolled := hw.roll hlater
  exact hrolled.add (hrolled.slot.trans (slotAt_roll _)) count

/-- **Whatever a window in use was asked for**, its buckets hold what belongs to them. -/
theorem Used.counts (hused : Used w log last) : Counts w log last := by
  induction hused with
  | fresh now interval subIntervals => exact counts_fresh now interval subIntervals
  | withInterval _ now interval => exact counts_fresh now interval _
  | withSubIntervals _ now subIntervals => exact counts_fresh now _ subIntervals
  | hit _ now count later ih => exact ih.hit later count
  | read _ now later ih => exact ih.roll later

/-! ## The sum of the buckets -/

/-- All buckets together hold the hits that are not out of date. -/
theorem Counts.sum (hw : Counts w log last) (hsize : 0 < w.buckets.size) :
    w.sum = Hits.total (log.filter fun e =>
      w.lastSlot.toNat < e.slot w.bucketMicros.toNat + w.buckets.size) := by
  have hlist : w.buckets.toList = (List.range w.buckets.size).map fun i =>
      Hits.total (log.filter (w.Holds i)) := by
    refine List.ext_getElem? fun i => ?_
    rw [Array.getElem?_toList, List.getElem?_map]
    by_cases hi : i < w.buckets.size
    · rw [hw.buckets i hi, List.getElem?_range hi]
      rfl
    · rw [Array.getElem?_eq_none (not_lt.mp hi), List.getElem?_eq_none]
      · rfl
      · exact List.length_range.trans_le (not_lt.mp hi)
  unfold RateWindow.sum
  rw [← Array.foldl_toList, ← List.sum_eq_foldl, hlist]
  exact Hits.sum_total_filter hsize _ log

theorem sum_modify {l : List UInt64} {i : Nat} (hi : i < l.length) (hits : UInt64) :
    (l.modify i (· + hits)).sum = l.sum + hits := by
  induction l generalizing i with
  | nil => exact absurd hi (Nat.not_lt_zero i)
  | cons count l ih =>
    cases i with
    | zero =>
      rw [List.modify_zero_cons, List.sum_cons, List.sum_cons, add_right_comm]
    | succ i =>
      rw [List.modify_succ_cons, List.sum_cons, List.sum_cons, ih (Nat.lt_of_succ_lt_succ hi),
        add_assoc]

/-- **What is counted is counted once**, whatever bucket it goes to. -/
theorem sum_hit (hsize : 0 < w.buckets.size) (now hits : UInt64) :
    (w.hit now hits).sum = (w.current now).sum + hits := by
  have hrolled : (w.current now).buckets.size = w.buckets.size := by
    unfold current roll
    split
    · rfl
    · exact size_clearAfter
  have hbucket : (w.current now).bucketOf (w.slotAt now) < (w.current now).buckets.toList.length :=
    Nat.mod_lt _ (hrolled ▸ hsize)
  unfold RateWindow.sum
  rw [← Array.foldl_toList, ← Array.foldl_toList, ← List.sum_eq_foldl, ← List.sum_eq_foldl,
    ← sum_modify hbucket]
  exact congrArg List.sum Array.toList_modify

/-- A number that is not negative is the same as a word. -/
theorem toNat_toUInt64 {n : Int64} (hn : 0 ≤ n.toInt) : n.toUInt64.toNat = n.toInt.toNat :=
  Int64.toNat_toUInt64_of_le (Int64.le_iff_toInt_le.mpr hn)

/-- The length of a bucket: the microseconds of the window, as a word, divided by the count of
buckets. -/
theorem toNat_bucketLength_mod {interval : Int64} {subIntervals : Int32}
    (hinterval : 1 ≤ interval.toInt) (hsub : 1 ≤ subIntervals.toInt) :
    (bucketLength interval subIntervals).toNat
      = max 1 (interval.toInt.toNat * 1000 % 2 ^ 64 / subIntervals.toInt.toNat) := by
  have hcount : subIntervals.toInt64.toUInt64.toNat = subIntervals.toInt.toNat := by
    have hword : subIntervals.toInt64.toInt = subIntervals.toInt := Int32.toInt_toInt64 _
    rw [toNat_toUInt64 (by omega), hword]
  have hproduct : (interval.toUInt64 * 1000).toNat = interval.toInt.toNat * 1000 % 2 ^ 64 := by
    rw [UInt64.toNat_mul, toNat_toUInt64 (by omega)]
    rfl
  unfold bucketLength
  rw [UInt64.toNat_max, UInt64.toNat_div, hproduct, hcount]
  rfl

/-- The length of a bucket does not wrap. -/
theorem toNat_bucketLength {interval : Int64} {subIntervals : Int32}
    (hinterval : 1 ≤ interval.toInt) (hsub : 1 ≤ subIntervals.toInt)
    (hmicros : interval.toInt * 1000 < 2 ^ 64) :
    (bucketLength interval subIntervals).toNat
      = max 1 (interval.toInt.toNat * 1000 / subIntervals.toInt.toNat) := by
  rw [toNat_bucketLength_mod hinterval hsub, Nat.mod_eq_of_lt (by omega)]

/-- **A window says how many hits there were in its latest slots**, modulo 2 to the power 64. -/
theorem used_sum (hused : Used w log last) (hregular : w.Regular) (hlater : last ≤ now) :
    (w.current now).sum.toNat
      = Hits.number (Hits.latest w.micros w.subIntervals.toInt.toNat now.toNat log) % 2 ^ 64 := by
  have hw : Counts (w.current now) log now := hused.counts.roll hlater
  have hshape : (w.current now).interval = w.interval
      ∧ (w.current now).subIntervals = w.subIntervals := by
    unfold current roll
    split <;> exact ⟨rfl, rfl⟩
  have hmicros : (w.current now).bucketMicros.toNat = w.micros := by
    rw [hw.length, hshape.1, hshape.2]
    exact toNat_bucketLength hregular.interval hregular.subIntervals hregular.micros
  have hsize : (w.current now).buckets.size = w.subIntervals.toInt.toNat := hshape.2 ▸ hw.size
  have hslot : (w.current now).lastSlot.toNat = now.toNat / w.micros := by
    rw [hw.slot, slotAt, UInt64.toNat_div, hmicros]
  have hpos := hregular.subIntervals
  rw [hw.sum (by omega), Hits.toNat_total, hsize, hslot, hmicros, Hits.latest]
  congr 3
  funext e
  rw [decide_eq_decide]
  omega

/-- Of a window of four quarters of a second: after a second the first quarter is out of date. -/
theorem used_sum_four_quarters :
    Used (((fresh 0 60000 4).withInterval 0 1000).hit 100000 3 |>.hit 600000 5)
        [⟨100000, 3⟩, ⟨600000, 5⟩] 600000
      ∧ (((fresh 0 60000 4).withInterval 0 1000).hit 100000 3 |>.hit 600000 5).Regular
      ∧ ((((fresh 0 60000 4).withInterval 0 1000).hit 100000 3 |>.hit 600000 5).current
          1000000).sum.toNat = 5 := by
  have hused := (((Used.fresh 0 60000 4).withInterval 0 1000).hit 100000 3 (by decide)).hit 600000 5
    (by decide)
  have hregular : (((fresh 0 60000 4).withInterval 0 1000).hit 100000 3 |>.hit 600000 5).Regular :=
    ⟨by decide, by decide, by decide⟩
  exact ⟨hused, hregular, used_sum hused hregular (by decide)⟩

end RateWindow
end PageRegions
