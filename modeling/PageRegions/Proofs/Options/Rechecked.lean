import PageRegions.Proofs.Options.Decided

/-!
# Looking at accepted settings again

Filling in is done once: settings that were accepted are left as they are when they are looked at
again. That they are accepted again is another matter. The least size of a region is asked of its
initial size before that is fitted under the maximum size, and is not asked again, so a region whose
maximum size is too small gets through if its initial size was left open, and what it was fitted to
is refused the second time. A maximum size of 0 is the exception: the initial size fitted under it
counts as left open.
-/

set_option autoImplicit false

namespace PageRegions
namespace RegionOptions
variable {o : RegionOptions}

theorem fitted_open (hopen : o.initialSize = 0) :
    o.fitted = { o with initialSize := min Machine.usualInitialSize o.maxSize } := if_pos hopen

theorem fitted_asked (hasked : o.initialSize ≠ 0) : o.fitted = o := if_neg hasked

/-- Fitted under nothing, an initial size is left open again. -/
theorem fitted_initialSize_eq_zero :
    o.fitted.initialSize = 0 ↔ o.initialSize = 0 ∧ o.maxSize = 0 := by
  by_cases hopen : o.initialSize = 0
  · rw [fitted_open hopen]
    by_cases hlowered : o.maxSize < Machine.usualInitialSize
    · simp [hopen, Rules.min_of_lt hlowered]
    · have hle := UInt64.not_lt.mp hlowered
      have hmax : o.maxSize ≠ 0 := fun hzero => absurd (hzero ▸ hle) (by decide)
      simp only [Rules.min_of_le hle, hmax, and_false, iff_false]
      decide
  · rw [fitted_asked hopen]
    simp [hopen]

/-- What is fitted is not fitted again. -/
theorem fitted_fitted (o : RegionOptions) : o.fitted.fitted = o.fitted := by
  by_cases hopen : o.fitted.initialSize = 0
  · obtain ⟨hinitial, -⟩ := fitted_initialSize_eq_zero.mp hopen
    rw [fitted_open hopen, fitted_open hinitial]
  · exact fitted_asked hopen

variable {settings : MemoryOptions} (hlawful : o.Lawful settings)
include hlawful

theorem Lawful.fitted_le_maxSize : o.fitted.initialSize ≤ o.fitted.maxSize := by
  rw [Rules.fitted_maxSize]
  by_cases hopen : o.initialSize = 0
  · rw [fitted_open hopen]
    by_cases hlowered : o.maxSize < Machine.usualInitialSize
    · exact UInt64.le_of_eq (Rules.min_of_lt hlowered)
    · have hle := UInt64.not_lt.mp hlowered
      exact (Rules.min_of_le hle).symm ▸ hle
  · rw [fitted_asked hopen]
    exact (hlawful.size.resolve_left hopen).2

/-- A lawful region is large enough once it is fitted, unless it was fitted under less. -/
theorem Lawful.fitted_large :
    Fault.leastRegionSize ≤ o.fitted.initialSize
      ↔ (o.initialSize = 0 → Fault.leastRegionSize ≤ o.maxSize) := by
  by_cases hopen : o.initialSize = 0
  · rw [fitted_open hopen]
    simp only [hopen, true_implies]
    by_cases hlowered : o.maxSize < Machine.usualInitialSize
    · rw [Rules.min_of_lt hlowered]
    · have hle := UInt64.not_lt.mp hlowered
      rw [Rules.min_of_le hle]
      exact iff_of_true Rules.usualInitialSize_large
        (UInt64.le_trans Rules.usualInitialSize_large hle)
  · rw [fitted_asked hopen]
    exact iff_of_true (hlawful.size.resolve_left hopen).1 fun h => absurd h hopen

/-- So it stays lawful just if it is large enough then, or left open again. -/
theorem Lawful.fitted_lawful {again : MemoryOptions} (hname : again.systemName = settings.systemName)
    (hpersistence : again.persistence = settings.persistence)
    (hpage : again.effectivePageSize = settings.effectivePageSize) :
    o.fitted.Lawful again
      ↔ (o.initialSize = 0 → o.maxSize = 0 ∨ Fault.leastRegionSize ≤ o.maxSize) := by
  have hsize : (o.fitted.initialSize = 0
      ∨ Fault.leastRegionSize ≤ o.fitted.initialSize ∧ o.fitted.initialSize ≤ o.fitted.maxSize)
      ↔ (o.initialSize = 0 → o.maxSize = 0 ∨ Fault.leastRegionSize ≤ o.maxSize) := by
    rw [fitted_initialSize_eq_zero, hlawful.fitted_large, and_iff_left hlawful.fitted_le_maxSize]
    by_cases hopen : o.initialSize = 0 <;> simp [hopen]
  rw [← hsize]
  constructor
  · exact Lawful.size
  · exact fun h =>
      { named := (Rules.fitted_name o).symm ▸ hlawful.named
        unreserved := (Rules.fitted_name o).symm ▸ hname.symm ▸ hlawful.unreserved
        size := h
        interval := (Rules.fitted_rateInterval o).symm ▸ hlawful.interval
        buckets := (Rules.fitted_subIntervals o).symm ▸ hlawful.buckets
        evicts := by
          rw [hpersistence, Rules.fitted_mode, Rules.evicts_fitted, hpage]
          exact hlawful.evicts }

end RegionOptions

namespace MemoryOptions
variable {narrow : Bool} {o : MemoryOptions}

theorem mem_filled {region : RegionOptions} :
    region ∈ o.filled.regions ↔ ∃ given ∈ o.regions, given.fitted = region := List.mem_map

theorem filled_names : o.filled.names = o.names := by
  simp [names, filled, paged, Function.comp_def]

theorem filled_lawful (hlawful : o.Lawful) :
    o.filled.Lawful ↔ ∀ region ∈ o.regions, region.initialSize = 0 →
      region.maxSize = 0 ∨ Fault.leastRegionSize ≤ region.maxSize := by
  have hregion : ∀ region ∈ o.regions, region.fitted.Lawful o.filled ↔ _ :=
    fun region hregion => (hlawful.regions region hregion).fitted_lawful rfl rfl
      o.paged_effectivePageSize
  constructor
  · intro h region hmem
    exact (hregion region hmem).mp (h.regions _ (mem_filled.mpr ⟨region, hmem, rfl⟩))
  · intro h
    exact
      { systemNamed := hlawful.systemNamed
        system_ne_default := hlawful.system_ne_default
        system_ne_usual := hlawful.system_ne_usual
        systemSize := hlawful.systemSize
        systemGrows := hlawful.systemGrows
        regions := fun region hmem => by
          obtain ⟨given, hgiven, rfl⟩ := mem_filled.mp hmem
          exact (hregion given hgiven).mpr (h given hgiven)
        distinct := filled_names.symm ▸ hlawful.distinct
        defaultSize := hlawful.defaultSize
        defaultNamed := filled_names.symm ▸ hlawful.defaultNamed }

/-- An initial size that is filled in is not too large for narrow addresses. -/
theorem filled_fitsNarrow (hfits : o.FitsNarrow) : o.filled.FitsNarrow where
  system := hfits.system
  regions := fun region hmem => by
    obtain ⟨given, hgiven, rfl⟩ := mem_filled.mp hmem
    by_cases hopen : given.initialSize = 0
    · rw [RegionOptions.fitted_open hopen]
      by_cases hlowered : given.maxSize < Machine.usualInitialSize
      · rw [Rules.min_of_lt hlowered]
        exact UInt64.le_trans (UInt64.le_of_lt hlowered) Rules.usualInitialSize_narrow
      · rw [Rules.min_of_le (UInt64.not_lt.mp hlowered)]
        exact Rules.usualInitialSize_narrow
    · rw [RegionOptions.fitted_asked hopen]
      exact hfits.regions given hgiven
  default := hfits.default

theorem filled_paged : o.filled.paged = o.filled := by
  have hpage : o.filled.effectivePageSize = o.effectivePageSize := o.paged_effectivePageSize
  rw [paged, hpage]
  rfl

/-- Settings with nothing left open are left as they are, accepted or not. -/
theorem check_kept (narrow : Bool) (o : MemoryOptions) :
    (o.filled.check narrow).options = o.filled := by
  have hfitted : ∀ region ∈ o.filled.regions, region.fitted = region := fun region hmem => by
    obtain ⟨given, -, rfl⟩ := mem_filled.mp hmem
    exact given.fitted_fitted
  rcases (check_rules narrow o.filled).2 with ⟨hpaged, -⟩ | hregions
  · exact hpaged.trans filled_paged
  · rw [hregions, filled_paged, Rules.regions_kept hfitted]

/-- **What accepted settings are worth when they are looked at again.** Every region starts within
its maximum size. It starts large enough, unless its initial size was left open and its maximum size
is too small. Nothing is filled in any more, and the settings are accepted again unless there is such
a region with a maximum size other than 0. -/
theorem check_again (hok : (o.check narrow).result = .ok ()) :
    (∀ region ∈ (o.check narrow).options.regions, region.initialSize ≤ region.maxSize)
      ∧ ((∀ region ∈ (o.check narrow).options.regions,
            Fault.leastRegionSize ≤ region.initialSize)
          ↔ ∀ region ∈ o.regions, region.initialSize = 0 → Fault.leastRegionSize ≤ region.maxSize)
      ∧ ((o.check narrow).options.check narrow).options = (o.check narrow).options
      ∧ (((o.check narrow).options.check narrow).result = .ok ()
          ↔ ∀ region ∈ o.regions, region.initialSize = 0 →
            region.maxSize = 0 ∨ Fault.leastRegionSize ≤ region.maxSize) := by
  obtain ⟨hlawful, hfits⟩ := check_result.mp hok
  rw [check_filled hok]
  refine ⟨fun region hmem => ?_, ?_, check_kept narrow o, ?_⟩
  · obtain ⟨given, hgiven, rfl⟩ := mem_filled.mp hmem
    exact (hlawful.regions given hgiven).fitted_le_maxSize
  · constructor
    · intro hlarge given hgiven
      exact (hlawful.regions given hgiven).fitted_large.mp
        (hlarge _ (mem_filled.mpr ⟨given, hgiven, rfl⟩))
    · intro hlarge region hmem
      obtain ⟨given, hgiven, rfl⟩ := mem_filled.mp hmem
      exact (hlawful.regions given hgiven).fitted_large.mpr (hlarge given hgiven)
  · rw [check_result, filled_lawful hlawful]
    exact and_iff_left fun h => filled_fitsNarrow (hfits h)

/-- Both regions of these settings are large enough, and the settings are accepted again. -/
theorem check_again_open_and_evicting :
    ((openAndEvicting.check false).options.check false).result = .ok ()
      ∧ ((openAndEvicting.check false).options.check false).options
        = (openAndEvicting.check false).options
      ∧ ∀ region ∈ (openAndEvicting.check false).options.regions,
        Fault.leastRegionSize ≤ region.initialSize ∧ region.initialSize ≤ region.maxSize := by
  have hok : (openAndEvicting.check false).result = .ok () := by decide +kernel
  have hlarge : ∀ region ∈ openAndEvicting.regions, region.initialSize = 0 →
      Fault.leastRegionSize ≤ region.maxSize := by decide +kernel
  obtain ⟨hgrows, hleast, hkept, hagain⟩ := check_again hok
  exact ⟨hagain.mpr fun region hmem hopen => .inr (hlarge region hmem hopen), hkept,
    fun region hmem => ⟨hleast.mpr hlarge region hmem, hgrows region hmem⟩⟩

/-- Settings of a region of 5 MiB whose initial size is left open. -/
def onlyFiveMiB : MemoryOptions :=
  { usual with
    regions := [{ RegionOptions.usual ⟨0, 0⟩ "a" with maxSize := 5 * 1024 * 1024 }] }

/-- It is accepted to start with 5 MiB, which is less than the least, and refused with them. -/
theorem check_again_refuses_five_MiB :
    (onlyFiveMiB.check false).result = .ok ()
      ∧ (onlyFiveMiB.check false).options.regions.map (·.initialSize) = [5 * 1024 * 1024]
      ∧ ((onlyFiveMiB.check false).options.check false).result
        = .error (.regionSizeTooSmall "a" (5 * 1024 * 1024)) := by
  decide +kernel

end MemoryOptions
end PageRegions
