import PageRegions.Options.Reader
import PageRegions.Proofs.Number.Shares
import PageRegions.Proofs.Region.Lasting
import PageRegions.Proofs.Registry.Watermark

/-!
# Thresholds that are accepted

A threshold is meant to be a number from a half to 999 in a thousand. The rules ask whether it is
less than the one or greater than the other, and refuse it if so. Of numbers that leaves just those
between: not one of all the others, be it ever so small, negative or infinite, is accepted. But what
is no number is neither less nor greater than anything, and passes.

At a threshold that is a number a region with as many pages as fit in it is above its watermark. At
one that is not it never is, and nothing is evicted, although the settings say that it should be.
Thresholds are read from texts, too, and there is a word for one that is no number.
-/

set_option autoImplicit false

namespace PageRegions

/-! ## Settings of a region -/

/-- A threshold that is accepted, and is a number, is one from a half to 999 in a thousand. -/
theorem Rules.Evicts.threshold_value {o : RegionOptions} {pageSize : UInt32}
    (hrules : Rules.Evicts o pageSize) (hnan : o.threshold.isNaN = false) :
    o.threshold.isFinite = true ∧ 1 / 2 ≤ o.threshold.value
      ∧ o.threshold.value ≤ 999 / 1000 := by
  obtain ⟨hinf, hsign, hmost⟩ := hrules.threshold_units hnan
  have hleast := hrules.threshold_half hnan
  have hhalf := (Binary64.ratio_le_value hsign 1 2 (by decide)).1
  have hgreatest := (Binary64.ratio_le_value hsign 999 1000 (by decide)).2
  refine ⟨Binary64.isFinite_of_not hnan hinf, ?_, ?_⟩
  · exact_mod_cast hhalf.mpr (by rw [Nat.one_mul]; exact hleast)
  · exact_mod_cast hgreatest.mpr hmost

namespace RegionOptions

variable {o : RegionOptions} {pageSize size : UInt32}

/-- How many pages fit in the maximum size of a region as a whole. -/
def capacity (o : RegionOptions) (systemPageSize : UInt32) : Nat :=
  (o.maxSize / systemPageSize.toUInt64).toNat

/-- The rules on the pool see to it that at least one page fits, also where the size of a page with
its header wraps. -/
theorem capacity_pos (hrules : Rules.Evicts o pageSize) (hpage : pageSize ≠ 0)
    (hle : size.toNat ≤ pageSize.toNat + 24) (hsize : size ≠ 0) : 0 < o.capacity size := by
  have hpool : leastPoolSize + 1 < (Rules.poolLimit o pageSize : Int) :=
    Int.lt_of_le_of_lt hrules.pool_gt hrules.pool_lt
  have hlimit : 11 < Rules.poolLimit o pageSize := Int.ofNat_lt.mp hpool
  have hpos : 0 < pageSize.toNat := Nat.pos_of_ne_zero fun hzero => hpage (UInt32.toNat_inj.mp hzero)
  have hpos' : 0 < size.toNat := Nat.pos_of_ne_zero fun hzero => hsize (UInt32.toNat_inj.mp hzero)
  unfold Rules.poolLimit at hlimit
  rw [if_neg hpage, Nat.div_div_eq_div_mul] at hlimit
  have hfits : 12 * (pageSize.toNat * poolShare) ≤ o.maxSize.toNat :=
    (Nat.le_div_iff_mul_le (Nat.mul_pos hpos (by decide))).mp hlimit
  unfold poolShare at hfits
  unfold capacity
  rw [UInt64.toNat_div, UInt32.toNat_toUInt64]
  exact Nat.div_pos (by omega) hpos'

/-- **As many pages as fit are above the watermark just if the threshold is a number.** -/
theorem watermark_less_capacity (hrules : Rules.Evicts o pageSize) (hpos : 0 < o.capacity size) :
    (o.watermark size).less (Binary64.ofNat (o.capacity size)) = true
      ↔ o.threshold.isNaN = false := by
  constructor
  · intro hless
    rw [Bool.eq_false_iff]
    intro hnan
    rw [Binary64.less_of_isNaN (watermark_isNaN hnan)] at hless
    cases hless
  · intro hnan
    obtain ⟨hinf, hsign, hmost⟩ := hrules.threshold_units hnan
    exact Binary64.mul_ofNat_less hpos (UInt64.toNat_lt _) hnan hinf hsign hmost

end RegionOptions

/-! ## Settings of a registry -/

namespace MemoryOptions

/-- **An accepted threshold does what it is for just if it is a number.** Then it is a number from a
half to 999 in a thousand, and a region with as many pages as fit in it is above its watermark. If it
is none, the region is never above its watermark, however many pages it has. -/
theorem check_threshold {narrow : Bool} {o : MemoryOptions} (hok : (o.check narrow).result = .ok ())
    (hpersistence : o.persistence = false) {region : RegionOptions}
    (hregion : region ∈ (o.check narrow).options.regions) (hmode : region.mode ≠ .disabled) :
    (region.threshold.isNaN = false ↔ region.threshold.isFinite = true
        ∧ 1 / 2 ≤ region.threshold.value ∧ region.threshold.value ≤ 999 / 1000)
      ∧ ∀ r : Region, r.options = region →
        r.store.memory.systemPageSize = o.effectivePageSize + 24 →
          (region.threshold.isNaN = true → r.isOver = false)
          ∧ (o.effectivePageSize + 24 ≠ 0 →
            r.loaded.toNat = region.capacity (o.effectivePageSize + 24) →
              (r.isOver = true ↔ region.threshold.isNaN = false)) := by
  have hrules := check_evicts hok hpersistence hregion hmode
  refine ⟨⟨hrules.threshold_value, ?_⟩, ?_⟩
  · rintro ⟨hfinite, -⟩
    exact Binary64.isNaN_of_isFinite hfinite
  · intro r hoptions hsystem
    have hmark : r.watermark = region.watermark (o.effectivePageSize + 24) := by
      unfold Region.watermark
      rw [hoptions, hsystem]
    unfold Region.isOver
    rw [hmark]
    refine ⟨fun hnan => ?_, fun hsize hloaded => ?_⟩
    · exact Binary64.less_of_isNaN (RegionOptions.watermark_isNaN hnan)
    · rw [hloaded]
      refine RegionOptions.watermark_less_capacity hrules ?_
      refine RegionOptions.capacity_pos hrules o.effectivePageSize_ne_zero ?_ hsize
      rw [UInt32.toNat_add]
      exact Nat.mod_le _ _

/-- Four pages fit in the region of 120 bytes. They are above its watermark of two. -/
theorem check_threshold_tiny :
    ∃ r : Region, r.options = Registry.fittedTiny
      ∧ (1 / 2 ≤ r.options.threshold.value ∧ r.options.threshold.value ≤ 999 / 1000)
      ∧ r.loaded.toNat = 4 ∧ r.options.capacity 25 = 4 ∧ r.isOver = true := by
  let made := Registry.made (Registry.onlyTiny.check false).options
    ((Registry.onlyTiny.check false).options.planUser Registry.fittedTiny) 0
  let r := (made.performEach (Host.fresh ⟨[], []⟩ fun _ => 0)
    [.start, .allocate, .allocate, .allocate, .allocate]).1
  have hoptions : r.options = Registry.fittedTiny := by decide +kernel
  have hok : (Registry.onlyTiny.check false).result = .ok () := by decide +kernel
  have hregion : Registry.fittedTiny ∈ (Registry.onlyTiny.check false).options.regions := by
    decide +kernel
  obtain ⟨hnumber, hloaded⟩ := check_threshold hok rfl hregion nofun
  have hnan : Registry.fittedTiny.threshold.isNaN = false := by decide +kernel
  obtain ⟨-, habove⟩ := hloaded r hoptions (by decide +kernel)
  refine ⟨r, hoptions, ?_, by decide +kernel, ?_, (habove (by decide) (by decide +kernel)).mpr hnan⟩
  · rw [hoptions]
    exact (hnumber.mp hnan).2
  · rw [hoptions]
    decide +kernel

/-- The text of settings whose threshold is no number. -/
def undefinedText : String :=
  "page_size=1;default_region_name=r;regions=\x7b\x7bname=r;max_size=120;"
    ++ "page_eviction_mode=kRandomLRU;eviction_threshold=nan;empty_pages_pool_size=11\x7d\x7d"

/-- What they are read as. -/
def undefinedThreshold : MemoryOptions :=
  { MemoryOptions.usual with
    pageSize := 1
    regions := [{ RegionOptions.usual ⟨0, 0⟩ "r" with
      maxSize := 120
      mode := .lru
      threshold := Binary64.nan
      poolSize := 11 }]
    defaultRegionName := "r" }

/-- **A text can switch eviction off and be accepted**: four pages are loaded, and no more than four
fit, but the region is not above its watermark. -/
theorem check_threshold_undefined :
    (MemoryOptions.ofText (RegionOptions.usual ⟨0, 0⟩ "") MemoryOptions.usual
        undefinedText.toList).toOption = some undefinedThreshold
      ∧ (undefinedThreshold.check false).result = .ok ()
      ∧ undefinedThreshold.persistence = false
      ∧ ∃ g h r s k, Registry.activate ⟨0, 0⟩ 0 undefinedThreshold (Host.fresh ⟨[], []⟩ fun _ => 0)
          = (.ok g, h)
        ∧ g.lookup "r" = .ok r ∧ Region.Run ClientCall r h s k
        ∧ s.options.mode = .lru ∧ s.options.threshold.isFinite = false
        ∧ s.loaded.toNat = 4 ∧ s.options.capacity s.store.memory.systemPageSize = 4
        ∧ s.isOver = false := by
  let calls := [RegionCall.insert 1, .insert 1, .insert 1, .insert 1]
  have htest : Registry.activates ⟨0, 0⟩ undefinedThreshold (Host.fresh ⟨[], []⟩ fun _ => 0) "r"
      (fun r h =>
        let s := (r.performEach h calls).1
        decide (s.options.mode = .lru) && !s.options.threshold.isFinite
          && decide (s.loaded.toNat = 4)
          && decide (s.options.capacity s.store.memory.systemPageSize = 4) && !s.isOver)
      = true := by decide +kernel
  obtain ⟨g, h, r, hok, hlookup, hfound⟩ := Registry.activates_eq_true htest
  simp only [Bool.and_eq_true, decide_eq_true_eq, Bool.not_eq_true'] at hfound
  obtain ⟨⟨⟨⟨hmode, hthreshold⟩, hloaded⟩, hcapacity⟩, hunder⟩ := hfound
  have hclient : ∀ c ∈ calls, ∀ r, ClientCall r c := by
    intro c hc r
    simp only [calls, List.mem_cons, List.not_mem_nil, or_false, or_self] at hc
    rw [hc]
    exact .insert 1
  exact ⟨by decide +kernel, (Registry.activate_ok hok).1, rfl, g, h, r, _, _, hok, hlookup,
    Region.Run.performEach calls hclient .first, hmode, hthreshold, hloaded, hcapacity, hunder⟩

end MemoryOptions
end PageRegions
