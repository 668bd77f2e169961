import PageRegions.Proofs.Options.Accepted
import PageRegions.Proofs.Region.Exhaustion
import PageRegions.Proofs.Registry.Activation

/-!
# Which accepted settings let memory run out

The rules on settings do not see to it that a region has pages to spare: they compare the pool, not
the watermark, with the pages there are. So it depends on the region. Where there are pages to spare
no client can use up the memory; where there are none it is enough to fill one page after the other.
-/

set_option autoImplicit false

namespace PageRegions

theorem RegionOptions.poolTarget_pos {o : RegionOptions} (hpos : 0 < o.poolSize.toInt) :
    0 < o.poolTarget := by
  refine UInt64.pos_iff_ne_zero.mpr fun hzero => ?_
  have hword : o.poolSize.toInt64 = 0 := congrArg Int64.ofUInt64 hzero
  have hint := congrArg Int64.toInt hword
  rw [Int32.toInt_toInt64] at hint
  exact absurd hint (Int.ne_of_gt hpos)

namespace Registry

/-- Modes that evict at random have a tracker, whether the fair queue takes its place or not. -/
theorem select_ne_idle {mode : EvictionMode} (hmode : mode = .lru ∨ mode = .lru2)
    (fairFifo : Bool) : TrackerKind.select mode false fairFifo ≠ .idle := by
  rcases hmode with rfl | rfl
  · cases fairFifo <;> decide
  · cases fairFifo <;> decide

theorem mode_ne_disabled {mode : EvictionMode} (hmode : mode = .lru ∨ mode = .lru2) :
    mode ≠ .disabled := by
  rcases hmode with rfl | rfl
  · nofun
  · nofun

/-- An active registry's region that evicts was just started, and keeps to the rules. -/
theorem activate_justStarted {m : Machine} {id : Nat} {o : MemoryOptions} {g : Registry}
    {h h' : Host} (hok : activate m id o h = (.ok g, h')) (hpersistence : o.persistence = false)
    (hsize : o.effectivePageSize.toNat + 24 < 2 ^ 32) {region : RegionOptions}
    (hregion : region ∈ g.options.regions) (hmode : region.mode = .lru ∨ region.mode = .lru2) :
    ∃ r, g.lookup region.name = .ok r
      ∧ Region.JustStarted region o.effectivePageSize false r
      ∧ region.evicts false = true ∧ Rules.Evicts region o.effectivePageSize := by
  obtain ⟨haccepted, hoptions, hregions⟩ := activate_ok hok
  obtain ⟨r, now, k, k', hlookup, hstart⟩ := hregions region hregion
  obtain ⟨hpage, hkept, -⟩ := MemoryOptions.check_ok haccepted
  rw [← hoptions] at hpage hkept
  have hoff := mode_ne_disabled hmode
  have hrules : Rules.Evicts region o.effectivePageSize := by
    rw [hoptions] at hregion
    exact MemoryOptions.check_evicts haccepted hpersistence hregion hoff
  refine ⟨r, hlookup, ?_, by simp [RegionOptions.evicts, hoff], hrules⟩
  unfold made at hstart
  rw [hpage, hkept, hpersistence] at hstart
  exact Region.start_justStarted (select_ne_idle hmode _) hsize hstart

/-- **Memory of an active registry's region is used up just if there are no pages to spare.** With
pages to spare no calls of clients use it up. Without, one page after the other can be filled, and
the first that is refused is one more than there are, unless memory could not be mapped. Regions of
18000 pages and more have some to spare, whatever number their threshold is. -/
theorem activate_outOfMemory {m : Machine} {id : Nat} {o : MemoryOptions} {g : Registry}
    {h h' : Host} (hok : activate m id o h = (.ok g, h')) (hpersistence : o.persistence = false)
    (hsize : o.effectivePageSize.toNat + 24 < 2 ^ 32) {region : RegionOptions}
    (hregion : region ∈ g.options.regions) (hmode : region.mode = .lru ∨ region.mode = .lru2) :
    (∃ r, g.lookup region.name = .ok r
      ∧ (region.sparesPages (o.effectivePageSize + 24) = true →
        ∀ s k, Region.Run ClientCall r h' s k → ∀ row fault,
          (s.insertRow row k).1 = some (.error fault) → fault.isOutOfMemory = false)
      ∧ (region.sparesPages (o.effectivePageSize + 24) = false →
        ∃ fault, (r.insertRows o.effectivePageSize
            (region.pageCount (o.effectivePageSize + 24) + 1) h').1 = some (.error fault)
          ∧ (fault.isOutOfMemory = true ∨ fault.isMapping = true)))
      ∧ (region.threshold.isNaN = false →
        18000 ≤ region.maxSize.toNat / (o.effectivePageSize.toNat + 24) →
        region.maxSize.toNat / (o.effectivePageSize.toNat + 24) < 2 ^ 32 →
        region.sparesPages (o.effectivePageSize + 24) = true) := by
  obtain ⟨r, hlookup, hstarted, hevicts, hrules⟩ :=
    activate_justStarted hok hpersistence hsize hregion hmode
  have hpool : 0 < region.poolSize.toInt := Int.lt_trans (by decide) hrules.pool_gt
  refine ⟨⟨r, hlookup, hstarted.outOfMemory o.effectivePageSize_ne_zero hevicts
    (RegionOptions.poolTarget_pos hpool) h'⟩, ?_⟩
  obtain ⟨haccepted, hoptions, -⟩ := activate_ok hok
  rw [hoptions] at hregion
  exact MemoryOptions.check_sparesPages haccepted hpersistence hsize hregion
    (mode_ne_disabled hmode)

/-! ## Two registries -/

/-- The settings of a region that has two segments of 10 MiB. -/
def twentyMiB (threshold : Binary64) : RegionOptions :=
  { Region.tenMiB threshold with
    maxSize := 20971520
    poolSize := 11 }

/-- The settings of a registry with that region. -/
def onlyTwentyMiB (pageSize : UInt32) (threshold : Binary64) : MemoryOptions :=
  { MemoryOptions.usual with
    pageSize := pageSize
    regions := [twentyMiB threshold]
    defaultRegionName := "r" }

/-- In pages of 4 KiB, there are 5090 of them and the watermark is at 5085: room is made before. -/
theorem activate_outOfMemory_small_pages :
    ∃ g h r, activate ⟨0, 0⟩ 0 (onlyTwentyMiB 4096 greatestThreshold)
        (Host.fresh ⟨[], []⟩ fun _ => 0) = (.ok g, h)
      ∧ g.lookup "r" = .ok r
      ∧ ∀ s k, Region.Run ClientCall r h s k → ∀ row fault,
          (s.insertRow row k).1 = some (.error fault) → fault.isOutOfMemory = false := by
  have hisOk : (activate ⟨0, 0⟩ 0 (onlyTwentyMiB 4096 greatestThreshold)
      (Host.fresh ⟨[], []⟩ fun _ => 0)).1.isOk = true := by decide +kernel
  rcases hok : activate ⟨0, 0⟩ 0 (onlyTwentyMiB 4096 greatestThreshold)
      (Host.fresh ⟨[], []⟩ fun _ => 0) with ⟨_ | g, h⟩
  · rw [hok] at hisOk
    cases hisOk
  · have hmem : twentyMiB greatestThreshold ∈ g.options.regions := by
      rw [(activate_ok hok).2.1]
      decide +kernel
    obtain ⟨⟨r, hlookup, hspare, -⟩, -⟩ :=
      activate_outOfMemory hok rfl (by decide) hmem (Or.inl rfl)
    exact ⟨g, h, r, rfl, hlookup, hspare (by decide +kernel)⟩

/-- In pages of 173294 bytes, there are 120 of them, the watermark is above 120, and the 121st page
is refused. -/
theorem activate_large_pages_outOfMemory :
    ∃ g h r, activate ⟨0, 0⟩ 0 (onlyTwentyMiB 173294 greatestThreshold)
        (Host.fresh ⟨[], []⟩ fun _ => 0) = (.ok g, h)
      ∧ g.lookup "r" = .ok r
      ∧ (r.insertRows 173294 121 h).1
        = some (.error (.outOfMemory "r" 10485760 20971520 120)) := by
  have hrun : ((activate ⟨0, 0⟩ 0 (onlyTwentyMiB 173294 greatestThreshold)
      (Host.fresh ⟨[], []⟩ fun _ => 0)).1.toOption.bind fun g =>
        (g.lookup "r").toOption.map fun r =>
          (r.insertRows 173294 121 (activate ⟨0, 0⟩ 0 (onlyTwentyMiB 173294 greatestThreshold)
            (Host.fresh ⟨[], []⟩ fun _ => 0)).2).1)
      = some (some (.error (.outOfMemory "r" 10485760 20971520 120))) := by
    decide +kernel
  rcases hok : activate ⟨0, 0⟩ 0 (onlyTwentyMiB 173294 greatestThreshold)
      (Host.fresh ⟨[], []⟩ fun _ => 0) with ⟨_ | g, h⟩
  · rw [hok] at hrun
    cases hrun
  · rw [hok] at hrun
    cases hlookup : g.lookup "r" with
    | error =>
      simp [Except.toOption, hlookup] at hrun
    | ok r =>
      simp only [Except.toOption, Option.bind_some, hlookup, Option.map_some,
        Option.some.injEq] at hrun
      exact ⟨g, h, r, rfl, hlookup, hrun⟩

end Registry
end PageRegions
