import Mathlib.Logic.Function.Iterate
import PageRegions.Proofs.Number.Binary64
import PageRegions.Proofs.Region.Calls

/-!
# What making room does

Making room counts two things that belong to others: page memory counts the loaded pages, the free
list the pooled ones. An eviction leaves the first count as it is and adds one to the second, so a
region above its watermark stays above it, and the pool alone decides when room is made. From that,
and from each eviction taking one page off those that can be evicted, the number of evictions
follows: what the pool lacks, or all there are.

That this needs no bound on the length of the pool, although the count of it is a 64-bit word, is
due to the test itself: a count that is below another word can be added to.

A watermark may be no number at all, because a threshold may be none. No count is above it then, and
none is at most that; no room is ever made (`ensureFreeSpace_of_isNaN`). So the result speaks of
regions that are *not above* their watermark.
-/

set_option autoImplicit false

namespace PageRegions
namespace Region

/-- The count of loaded pages above which room is made. -/
def watermark (r : Region) : Binary64 := r.options.watermark r.store.memory.systemPageSize

/-- Whether more pages are loaded than the watermark allows. -/
def isOver (r : Region) : Bool := r.watermark.less (Binary64.ofNat r.loaded.toNat)

theorem isShort_iff {r : Region} {h : Host} :
    supply.isShort r.watermark r.options.poolTarget (r, h) = true
      ↔ r.isOver = true ∧ r.pooled < r.options.poolTarget := by
  rw [Supply.isShort, Bool.and_eq_true, decide_eq_true_iff]
  rfl

/-! ## A run of evictions -/

/-- A region `s` that `r` is after evictions of the given pages, and all that changed meanwhile. -/
structure Evicted (r : Region) (h : Host) (victims : List PageId) (s : Region) (k : Host) :
    Prop where
  evictable : r.evictable.Perm (victims ++ s.evictable)
  stale_le : s.stale.length ≤ r.stale.length
  rest : s = { r with
    freeList := r.freeList.evictEach victims
    tracker := s.tracker
    store := { r.store with
      metrics := (fun m => m.countEviction h.now)^[victims.length] r.store.metrics } }
  host : ∃ drawn, k = { h with drawn := drawn }
  coherent : s.tracker.Coherent
  started : s.tracker.started = r.tracker.started
  kind : s.tracker.kind = r.tracker.kind

/-- No eviction, though pages without rows may have been dropped. -/
theorem Evicted.nil {r : Region} (h : Host) {t : Tracker} (drawn : Nat)
    (hevictable : r.evictable = ({ r with tracker := t } : Region).evictable)
    (hstale : ({ r with tracker := t } : Region).stale.length ≤ r.stale.length)
    (hcoherent : t.Coherent) (hstarted : t.started = r.tracker.started)
    (hkind : t.kind = r.tracker.kind) :
    Evicted r h [] { r with tracker := t } { h with drawn := drawn } where
  evictable := by rw [hevictable, List.nil_append]
  stale_le := hstale
  rest := rfl
  host := ⟨drawn, rfl⟩
  coherent := hcoherent
  started := hstarted
  kind := hkind

/-- The region after one eviction, as far as this does not depend on the tracker. -/
def afterEviction (r : Region) (h : Host) (victim : PageId) (t : Tracker) : Region :=
  { r with
    tracker := t
    freeList := (r.freeList.evict victim).2
    store := { r.store with metrics := r.store.metrics.countEviction h.now } }

theorem Evicted.cons {r s : Region} {h k : Host} {victim : PageId} {dropped victims : List PageId}
    {t : Tracker} {drawn : Nat} (hcoherent : r.tracker.Coherent)
    (hholds : r.freeList.holds victim = true)
    (hempty : ∀ x ∈ dropped, r.freeList.holds x = false)
    (hperm : r.tracker.pages.Perm (victim :: (dropped ++ t.pages)))
    (hstarted : t.started = r.tracker.started) (hkind : t.kind = r.tracker.kind)
    (hmore : Evicted (r.afterEviction h victim t) { h with drawn := drawn } victims s k) :
    Evicted r h (victim :: victims) s k where
  evictable :=
    (perm_evictable (s := r.afterEviction h victim t) hcoherent hholds hempty hperm rfl).1.trans
      (hmore.evictable.cons victim)
  stale_le := hmore.stale_le.trans
    (perm_evictable (s := r.afterEviction h victim t) hcoherent hholds hempty hperm rfl).2
  rest := hmore.rest
  host := hmore.host
  coherent := hmore.coherent
  started := hmore.started.trans hstarted
  kind := hmore.kind.trans hkind

theorem Evicted.length_le {r s : Region} {h k : Host} {victims : List PageId}
    (hev : Evicted r h victims s k) :
    r.evictable.length = victims.length + s.evictable.length := by
  rw [hev.evictable.length_eq, List.length_append]

/-! ## The loop -/

/-- An eviction that succeeds adds one to the count of the pool. -/
theorem pooled_afterEviction {r : Region} {h : Host} {victim : PageId} {t : Tracker}
    (hholds : r.freeList.holds victim = true) (hlt : r.pooled < r.options.poolTarget) :
    (r.afterEviction h victim t).pooled.toNat = r.pooled.toNat + 1 := by
  obtain ⟨p, -, -, hev⟩ := FreeList.evict_of_holds hholds
  have hpool : (r.afterEviction h victim t).pooled
      = UInt64.ofNat (r.freeList.pool.length + 1) := by
    change UInt64.ofNat (r.freeList.evict victim).2.pool.length = _
    rw [hev, FreeList.close_pool, List.length_cons]
  have hword : r.pooled.toNat = r.freeList.pool.length % 2 ^ 64 := UInt64.toNat_ofNat'
  -- The word for the length of the pool may have wrapped. What is below another word is not the
  -- greatest, so adding one does not wrap it now.
  have hlt' := UInt64.lt_iff_toNat_lt.mp hlt
  have hmax := r.options.poolTarget.toNat_lt
  rw [hpool, UInt64.toNat_ofNat', hword]
  omega

/-- **The loop of evictions**, on a region that is short of pages. The induction is on what the pool
lacks. -/
theorem makeRoom_evicted (lack : Nat) {r : Region} (hcoherent : r.tracker.Coherent)
    (hkind : r.tracker.kind ≠ .idle) (hstale : r.stale.length < SampledTracker.attemptLimit)
    (hover : r.isOver = true)
    (hlack : r.pooled.toNat + lack = r.options.poolTarget.toNat) (h : Host) :
    ∃ result victims s k, r.makeRoom h = (some result, s, k) ∧ Evicted r h victims s k
      ∧ ((result = .ok () ∧ victims.length = lack)
        ∨ ∃ fault, result = .error fault ∧ fault.kind = .aborted ∧ s.evictable = []
            ∧ victims.length < lack) := by
  induction lack generalizing r h with
  | zero =>
    have hnot : supply.isShort r.watermark r.options.poolTarget (r, h) = false := by
      rw [Bool.eq_false_iff, Ne, isShort_iff, UInt64.lt_iff_toNat_lt]
      omega
    exact ⟨.ok (), [], r, h, Supply.makeRoom_of_enough hnot,
      .nil h h.drawn rfl (Nat.le_refl _) hcoherent rfl rfl, Or.inl ⟨rfl, rfl⟩⟩
  | succ lack ih =>
    have hlt : r.pooled < r.options.poolTarget := by
      rw [UInt64.lt_iff_toNat_lt]
      omega
    have hshort : supply.isShort r.watermark r.options.poolTarget (r, h) = true :=
      isShort_iff.mpr ⟨hover, hlt⟩
    have hev := evictPage_eviction hcoherent hkind h
    generalize heq : r.evictPage h = out at hev
    cases hev with
    | evicted victim dropped t drawn holds empty perm coherent started kind =>
      have hpooled := pooled_afterEviction (h := h) (t := t) holds hlt
      have hstep := perm_evictable (s := r.afterEviction h victim t) hcoherent holds empty perm rfl
      obtain ⟨result, victims, s, k, hrun, hmore, hend⟩ :=
        ih (r := r.afterEviction h victim t) coherent (fun he => hkind (kind.symm.trans he))
          (Nat.lt_of_le_of_lt hstep.2 hstale) hover
          (by rw [hpooled]; change _ = r.options.poolTarget.toNat; omega)
          { h with drawn := drawn }
      refine ⟨result, victim :: victims, s, k, ?_,
        hmore.cons hcoherent holds empty perm started kind, ?_⟩
      · rw [← hrun]
        refine Supply.makeRoom_of_ok hshort (t := (r.afterEviction h victim t, _)) ?_ ?_
        · simp only [supply, heq]
          rfl
        · rw [UInt64.lt_iff_toNat_lt]
          change r.pooled.toNat < (r.afterEviction h victim t).pooled.toNat
          omega
      · rcases hend with ⟨rfl, hlen⟩ | ⟨fault, rfl, haborted, hnone, hlen⟩
        · exact Or.inl ⟨rfl, by rw [List.length_cons, hlen]⟩
        · exact Or.inr ⟨fault, rfl, haborted, hnone, by rw [List.length_cons]; omega⟩
    -- With fewer stale pages than attempts a tracker gives up only when it has no page left.
    | refused fault dropped t drawn cause empty perm why coherent started kind =>
      obtain ⟨hnil, hle⟩ := evictable_eq_nil empty perm
      have hleft : t.pages = [] := by
        rcases why with hleft | hlimit
        · exact hleft
        · omega
      have hnone : ({ r with tracker := t } : Region).evictable = [] := by
        rw [evictable, hleft, List.filter_nil]
      refine ⟨.error fault, [], { r with tracker := t }, { h with drawn := drawn }, ?_,
        .nil h drawn ((hnil hleft).trans hnone.symm) ?_ coherent started kind,
        Or.inr ⟨fault, rfl, Fault.kind_of_deniesVictim cause, hnone, Nat.succ_pos lack⟩⟩
      · refine Supply.makeRoom_of_error hshort (t := ({ r with tracker := t }, _)) ?_
        simp only [supply, heq]
      · rw [stale, hleft, List.filter_nil]
        exact Nat.zero_le _

/-! ## The effect -/

/-- What making room in a region `r` that is short of pages comes to: the pages that were evicted,
and the region after it. -/
structure RoomMade (r : Region) (h : Host) (victims : List PageId) (result : Except Fault Unit)
    (s : Region) : Prop where
  nodup : victims.Nodup
  tracked : ∀ v ∈ victims, v ∈ r.tracker.pages ∧ r.freeList.holds v = true
  /-- As many as the pool lacks, or all that can be evicted. -/
  count : victims.length
    = min (r.options.poolTarget.toNat - r.pooled.toNat) r.evictable.length
  /-- All rows of the victims are gone from the accounts, and nothing else is. -/
  freeList : s.freeList = r.freeList.evictEach victims
  pages : s.freeList.pages = r.freeList.pages.filter fun p => decide (p.id ∉ victims)
  pool : s.freeList.pool = victims.reverse ++ r.freeList.pool
  memory : s.store.memory = r.store.memory
  loaded : s.loaded = r.loaded
  /-- Each eviction is counted once. -/
  metrics : s.store.metrics = (fun m => m.countEviction h.now)^[victims.length] r.store.metrics
  ok : r.options.poolTarget.toNat - r.pooled.toNat ≤ r.evictable.length → result = .ok ()
  aborted : r.evictable.length < r.options.poolTarget.toNat - r.pooled.toNat →
    ∃ fault, result = .error fault ∧ fault.kind = .aborted

theorem ensureFreeSpace_of_enough {r : Region}
    (henough : r.isOver = false ∨ r.options.poolTarget ≤ r.pooled) (h : Host) :
    r.ensureFreeSpace h = (some (.ok ()), r, h) := by
  cases hevicts : r.options.evicts r.persistence with
  | false => exact ensureFreeSpace_of_not_evicts hevicts h
  | true =>
    have hnot : supply.isShort r.watermark r.options.poolTarget (r, h) = false := by
      rw [Bool.eq_false_iff, Ne, isShort_iff, not_and_or, Bool.not_eq_true, UInt64.not_lt]
      exact henough
    obtain ⟨notes, heq, hnotes⟩ :=
      ensureFreeSpace_of_evicts hevicts (h := h) (Supply.makeRoom_of_enough hnot)
    rw [heq, hnotes rfl, Host.record, List.append_nil]

/-- Evicting pages changes neither the settings of a region nor its memory. -/
theorem makeRoom_same (r : Region) (h : Host) :
    (r.makeRoom h).2.1.options = r.options ∧ (r.makeRoom h).2.1.store.memory = r.store.memory := by
  refine Supply.makeRoom_keeps
    (I := fun u : Region × Host => u.1.options = r.options ∧ u.1.store.memory = r.store.memory)
    (fun u hu => ?_) ⟨rfl, rfl⟩
  have hstep : (u.1.evictPage u.2).2.1.options = u.1.options
      ∧ (u.1.evictPage u.2).2.1.store.memory = u.1.store.memory := by
    unfold evictPage
    split <;> exact ⟨rfl, rfl⟩
  exact ⟨hstep.1.trans hu.1, hstep.2.trans hu.2⟩

theorem enough_of_makeRoom_ok {r s : Region} {h k : Host}
    (hok : r.makeRoom h = (some (.ok ()), s, k)) :
    s.isOver = false ∨ s.options.poolTarget ≤ s.pooled := by
  obtain ⟨hoptions, hmemory⟩ := makeRoom_same r h
  have hnot := Supply.not_isShort_of_makeRoom_ok hok
  rw [hok] at hoptions hmemory
  rw [← hoptions, ← hmemory] at hnot
  have hnot : ¬ supply.isShort s.watermark s.options.poolTarget (s, k) = true :=
    Bool.eq_false_iff.mp hnot
  rw [isShort_iff, not_and_or, Bool.not_eq_true, UInt64.not_lt] at hnot
  exact hnot

theorem enough_of_ensureFreeSpace_ok {r s : Region} {h k : Host}
    (hevicts : r.options.evicts r.persistence = true)
    (hok : r.ensureFreeSpace h = (some (.ok ()), s, k)) :
    s.isOver = false ∨ s.options.poolTarget ≤ s.pooled := by
  obtain ⟨notes, heq, -⟩ := ensureFreeSpace_of_evicts hevicts (h := h) rfl
  rw [heq, Prod.mk.injEq, Prod.mk.injEq] at hok
  obtain ⟨hresult, rfl, -⟩ := hok
  exact enough_of_makeRoom_ok (Prod.ext hresult rfl)

/-- **Where room was made, none is lacking.** -/
theorem ensureFreeSpace_again {r s : Region} {h k : Host}
    (hok : r.ensureFreeSpace h = (some (.ok ()), s, k)) (h' : Host) :
    s.ensureFreeSpace h' = (some (.ok ()), s, h') := by
  cases hevicts : r.options.evicts r.persistence with
  | false =>
    rw [ensureFreeSpace_of_not_evicts hevicts, Prod.mk.injEq, Prod.mk.injEq] at hok
    rw [← hok.2.1]
    exact ensureFreeSpace_of_not_evicts hevicts h'
  | true => exact ensureFreeSpace_of_enough (enough_of_ensureFreeSpace_ok hevicts hok) h'

theorem makeRoom_roomMade {r : Region} (hcoherent : r.tracker.Coherent)
    (hkind : r.tracker.kind ≠ .idle) (hstale : r.stale.length < SampledTracker.attemptLimit)
    (hover : r.isOver = true) (hlt : r.pooled < r.options.poolTarget) (h : Host) :
    ∃ result victims s k, r.makeRoom h = (some result, s, k) ∧ RoomMade r h victims result s := by
  have hle := UInt64.lt_iff_toNat_lt.mp hlt
  obtain ⟨result, victims, s, k, hrun, hev, hend⟩ :=
    makeRoom_evicted (r.options.poolTarget.toNat - r.pooled.toNat) hcoherent hkind hstale hover
      (by omega) h
  have hsum := hev.length_le
  have hnodup : (victims ++ s.evictable).Nodup :=
    hev.evictable.nodup_iff.mp (hcoherent.nodup.filter _)
  have htracked : ∀ v ∈ victims, v ∈ r.tracker.pages ∧ r.freeList.holds v = true := fun v hv =>
    mem_evictable.mp (hev.evictable.mem_iff.mpr (List.mem_append_left _ hv))
  obtain ⟨hpages, hpool⟩ := FreeList.evictEach_moves (f := r.freeList)
    (List.nodup_append.mp hnodup).1 fun v hv => (htracked v hv).2
  have hfree : s.freeList = r.freeList.evictEach victims := by rw [hev.rest]
  refine ⟨result, victims, s, k, hrun, {
    nodup := (List.nodup_append.mp hnodup).1
    tracked := htracked
    count := ?_
    freeList := hfree
    pages := by rw [hfree, hpages]
    pool := by rw [hfree, hpool]
    memory := by rw [hev.rest]
    loaded := by rw [hev.rest]; rfl
    metrics := by rw [hev.rest]
    ok := fun hall => ?_
    aborted := fun hfew => ?_ }⟩
  -- Both ends of the loop decide the minimum: one evicted all that was lacking, the other all
  -- there were.
  · rcases hend with ⟨-, hlen⟩ | ⟨fault, -, -, hnone, hlen⟩
    · omega
    · rw [hnone, List.length_nil] at hsum
      omega
  · rcases hend with ⟨hok, -⟩ | ⟨fault, -, -, hnone, hlen⟩
    · exact hok
    · rw [hnone, List.length_nil] at hsum
      omega
  · rcases hend with ⟨-, hlen⟩ | ⟨fault, hfault, haborted, -, -⟩
    · omega
    · exact ⟨fault, hfault, haborted⟩

/-- **Making room evicts exactly what is lacking**, in every region that can be reached, whichever
pages its tracker has and whatever lots fall. Where nothing is lacking nothing is done, and after
room was made nothing is lacking. -/
theorem reached_ensureFreeSpace {r : Region} (hr : Reached r) (hkind : r.tracker.kind ≠ .idle)
    (hevicts : r.options.evicts r.persistence = true) (hstale : r.stale.length < 5000) (h : Host) :
    (r.isOver = false ∨ r.options.poolTarget ≤ r.pooled →
        r.ensureFreeSpace h = (some (.ok ()), r, h))
      ∧ (r.isOver = true → r.pooled < r.options.poolTarget →
        ∃ result victims s k, r.ensureFreeSpace h = (some result, s, k)
          ∧ RoomMade r h victims result s)
      ∧ ∀ s k, r.ensureFreeSpace h = (some (.ok ()), s, k) →
        ∀ h', s.ensureFreeSpace h' = (some (.ok ()), s, h') := by
  refine ⟨fun henough => ensureFreeSpace_of_enough henough h, fun hover hlt => ?_,
    fun s k hok h' => ensureFreeSpace_again hok h'⟩
  obtain ⟨result, victims, s, k, hrun, hmade⟩ :=
    makeRoom_roomMade hr.coherent hkind hstale hover hlt h
  obtain ⟨notes, heq, -⟩ := ensureFreeSpace_of_evicts hevicts hrun
  exact ⟨result, victims, s, k.record notes, heq, hmade⟩

/-! ## Two regions with two full pages -/

/-- Settings for a region of 10 MiB from which pages are evicted. -/
def tenMiB (threshold : Binary64) : RegionOptions where
  name := "r"
  initialSize := 10485760
  maxSize := 10485760
  mode := .lru
  threshold := threshold
  poolSize := 1
  swapPath := ""
  metricsEnabled := true
  rateInterval := 60000
  subIntervals := 5

/-- A region after some calls, with the host after them. -/
def performEach (r : Region) (h : Host) (calls : List RegionCall) : Region × Host :=
  calls.foldl (fun s c => (s.1.perform s.2 c).2) (r, h)

theorem Reached.performEach {r : Region} (hr : Reached r) (h : Host) (calls : List RegionCall) :
    Reached (r.performEach h calls).1 := by
  induction calls generalizing r h with
  | nil => exact hr
  | cons c more ih => exact ih (.call c h hr) _

/-- A region with pages of 4 MiB, two of them full, and its host. -/
def twoFullPages (threshold : Binary64) : Region × Host :=
  (fresh 0 (tenMiB threshold) 4194280 false false .fairQueue .anonymous false).performEach
    (Host.fresh ⟨[], []⟩ fun _ => 0) [.start, .insert 4194280, .insert 4194280]

theorem twoFullPages_reached (threshold : Binary64) : Reached (twoFullPages threshold).1 :=
  (Reached.fresh 0 (tenMiB threshold) 4194280 false false .fairQueue .anonymous
    false).performEach _ _

/-- At a watermark of one page, one of the two is evicted. -/
theorem reached_ensureFreeSpace_two_pages :
    ∃ r h, Reached r ∧ r.isOver = true ∧ r.evictable.length = 2 ∧ r.stale.length < 5000
      ∧ ∃ result victims s k, r.ensureFreeSpace h = (some result, s, k)
        ∧ RoomMade r h victims result s ∧ victims.length = 1 ∧ result = .ok () := by
  let half := Binary64.ofRatio false 1 2
  refine ⟨(twoFullPages half).1, (twoFullPages half).2, twoFullPages_reached half,
    by decide +kernel, by decide +kernel, by decide +kernel, ?_⟩
  obtain ⟨result, victims, s, k, heq, hmade⟩ :=
    (reached_ensureFreeSpace (twoFullPages_reached half) (by decide +kernel)
      (by decide +kernel) (by decide +kernel) (twoFullPages half).2).2.1
      (by decide +kernel) (by decide +kernel)
  exact ⟨result, victims, s, k, heq, hmade, hmade.count.trans (by decide +kernel),
    hmade.ok (by decide +kernel)⟩

/-- A threshold that is no number makes a region never short of pages. -/
theorem ensureFreeSpace_of_isNaN {r : Region} (hnan : r.options.threshold.isNaN = true)
    (h : Host) : r.ensureFreeSpace h = (some (.ok ()), r, h) := by
  refine ensureFreeSpace_of_enough (Or.inl ?_) h
  have hmark : r.watermark = Binary64.nan := by
    unfold watermark RegionOptions.watermark Binary64.mul
    simp only [hnan, Bool.or_true, if_true]
  unfold isOver Binary64.less
  rw [hmark]
  rfl

/-- Not to be above the watermark is to be at most at it, if that is a number. -/
theorem isOver_eq_not_atMost {r : Region} (hnan : r.watermark.isNaN = false) :
    r.isOver = !(Binary64.ofNat r.loaded.toNat).atMost r.watermark :=
  Binary64.less_eq_not_atMost hnan (Binary64.isNaN_ofNat _)

/-- **The count need not be at most at the watermark for nothing to be done**: at a threshold that
is no number it never is, the pool lacks a page, two pages could be evicted, and none is. -/
theorem ensureFreeSpace_not_evicting_at_nan :
    ∃ r h, Reached r ∧ r.tracker.kind ≠ .idle ∧ r.tracker.started = true
      ∧ r.options.evicts r.persistence = true ∧ r.stale = []
      ∧ (Binary64.ofNat r.loaded.toNat).atMost r.watermark = false
      ∧ r.pooled < r.options.poolTarget
      ∧ min (r.options.poolTarget.toNat - r.pooled.toNat) r.evictable.length = 1
      ∧ r.ensureFreeSpace h = (some (.ok ()), r, h) := by
  refine ⟨(twoFullPages Binary64.nan).1, (twoFullPages Binary64.nan).2, twoFullPages_reached _,
    by decide +kernel, by decide +kernel, by decide +kernel, by decide +kernel, by decide +kernel,
    by decide +kernel, by decide +kernel, ?_⟩
  exact ensureFreeSpace_of_isNaN (by decide +kernel) _

end Region
end PageRegions
