import PageRegions.Proofs.Region.Watermark
import PageRegions.Proofs.Registry.Exhaustion

/-!
# What accepted settings make of the watermark

The regions of a user who evicts keep to their watermark, whatever the settings are in detail: they
load one page more than it counts and no further one. For the pool the rules on settings are not
enough. It can be filled just where it asks for no more pages than that, and of pages smaller than
six bytes the rules let it ask for more.
-/

set_option autoImplicit false

namespace PageRegions
namespace Registry

/-- **A user's region that evicts keeps to its watermark**: from its start on, with what success
ever, no calls of clients load more than one page above it, and none unloads a page. -/
theorem run_loaded_le_watermark {narrow : Bool} {o : MemoryOptions}
    (hok : (o.check narrow).result = .ok ()) (hpersistence : o.persistence = false)
    (hsize : o.effectivePageSize.toNat + 24 < 2 ^ 32) {region : RegionOptions}
    (hregion : region ∈ (o.check narrow).options.regions)
    (hmode : region.mode = .lru ∨ region.mode = .lru2) (hnan : region.threshold.isNaN = false)
    {now : UInt64} {k k' : Host} {result : Except Fault Unit} {first : Region}
    (hstart : (made (o.check narrow).options ((o.check narrow).options.planUser region) now).start k
      = (result, first, k'))
    {host h : Host} {r : Region} (hrun : Region.Run ClientCall first host r h) :
    r.loaded.toNat ≤ (region.watermark (o.effectivePageSize + 24)).floorNat + 1
      ∧ ∀ c, ClientCall r c → r.loaded ≤ (r.perform h c).2.1.loaded := by
  obtain ⟨hpage, hkept, -⟩ := MemoryOptions.check_ok hok
  have hoff := mode_ne_disabled hmode
  have hrules := MemoryOptions.check_evicts hok hpersistence hregion hoff
  unfold made at hstart
  rw [hpage, hkept, hpersistence] at hstart
  obtain ⟨hcounted, hoptions, hnever, hzero, hmark⟩ :=
    Region.start_counted (select_ne_idle hmode _) hsize hstart host
  change first.options = region at hoptions
  change first.watermark = region.watermark (o.effectivePageSize + 24) at hmark
  have hevicts : first.options.evicts first.persistence = true := by
    rw [hoptions, hnever]
    simp [RegionOptions.evicts, hoff]
  have hpool : 0 < first.options.poolTarget := by
    rw [hoptions]
    exact RegionOptions.poolTarget_pos (Int.lt_trans (by decide) hrules.pool_gt)
  obtain ⟨hnumber, hpositive⟩ : first.watermark.isNaN = false
      ∧ first.watermark.isNegative = false := by
    rw [hmark]
    exact RegionOptions.watermark_isNumber hrules hnan
  rw [← hmark]
  refine ⟨hcounted.run_loaded hevicts hpool hnumber hpositive ?_ hrun, fun c hc => ?_⟩
  · rw [hzero]
    exact Nat.zero_le _
  · rcases (hcounted.run hrun).perform_loaded hevicts hpool hnumber hpositive hc
      with hsame | ⟨hmore, -⟩
    · rw [hsame]
      exact UInt64.le_refl _
    · rw [UInt64.le_iff_toNat_le, hmore]
      exact Nat.le_succ _

/-- Settings of a region of 120 bytes, at a threshold of a half. Its initial size is not asked
for. -/
def tiny : RegionOptions :=
  { Region.tenMiB (Binary64.ofRatio false 1 2) with
    initialSize := 0
    maxSize := 120
    poolSize := 11 }

/-- Settings of a registry with that region, in pages of one byte. -/
def onlyTiny : MemoryOptions :=
  { MemoryOptions.usual with
    pageSize := 1
    regions := [tiny]
    defaultRegionName := "r" }

/-- The region as it is after its initial size was fitted. -/
def fittedTiny : RegionOptions := { tiny with initialSize := 120 }

/-- Four pages of 25 bytes fit in 120 bytes, and the watermark is at two: a third is loaded. -/
theorem run_loaded_le_watermark_tiny :
    ∃ r h, r.loaded.toNat = (fittedTiny.watermark 25).floorNat + 1
      ∧ r.loaded.toNat ≤ (fittedTiny.watermark (onlyTiny.effectivePageSize + 24)).floorNat + 1
      ∧ ∀ c, ClientCall r c → r.loaded ≤ (r.perform h c).2.1.loaded := by
  let region := made (onlyTiny.check false).options
    ((onlyTiny.check false).options.planUser fittedTiny) 0
  let started := region.start (Host.fresh ⟨[], []⟩ fun _ => 0)
  have hstart : region.start (Host.fresh ⟨[], []⟩ fun _ => 0)
      = (started.1, started.2.1, started.2.2) := rfl
  have hfirst : Region.Run ClientCall started.2.1 started.2.2 started.2.1 started.2.2 := .first
  have hrun := ((hfirst.call (.insert 1) (.insert 1)).call (.insert 1) (.insert 1)).call
    (.insert 1) (.insert 1)
  have hbound := run_loaded_le_watermark (by decide +kernel) rfl (by decide) (by decide +kernel)
    (Or.inl rfl) (by decide +kernel) hstart hrun
  exact ⟨_, _, by decide +kernel, hbound⟩

/-- **Room can always be made in an active registry's region just if its pool asks for no more pages
than there are.** If so, no calls of clients who use its pages for rows lead to a region where it
fails. If not, one page after the other can be filled until one is above the watermark, and then it
fails, unless memory could not be mapped. From pages of six bytes on the rules see to the first. -/
theorem activate_reserve {m : Machine} {id : Nat} {o : MemoryOptions} {g : Registry}
    {h h' : Host} (hok : activate m id o h = (.ok g, h')) (hpersistence : o.persistence = false)
    (hsize : o.effectivePageSize.toNat + 24 < 2 ^ 32) {region : RegionOptions}
    (hregion : region ∈ g.options.regions) (hmode : region.mode = .lru ∨ region.mode = .lru2) :
    ∃ r, g.lookup region.name = .ok r
      ∧ (region.reachesPool (o.effectivePageSize + 24) = true →
        ∀ s k, Region.Run RowCall r h' s k → (s.ensureFreeSpace k).1 = some (.ok ()))
      ∧ (region.reachesPool (o.effectivePageSize + 24) = false →
        ∃ fault, (r.insertRows o.effectivePageSize
            ((region.watermark (o.effectivePageSize + 24)).floorNat + 2) h').1
            = some (.error fault)
          ∧ (fault.deniesVictim = true ∨ fault.isMapping = true))
      ∧ (6 ≤ o.effectivePageSize.toNat →
        region.reachesPool (o.effectivePageSize + 24) = true) := by
  obtain ⟨r, hlookup, hstarted, hevicts, hrules⟩ :=
    activate_justStarted hok hpersistence hsize hregion hmode
  obtain ⟨hfilled, hdenied⟩ :=
    hstarted.reserve o.effectivePageSize_ne_zero hevicts hrules h'
  exact ⟨r, hlookup, hfilled, hdenied, fun hpage =>
    RegionOptions.reachesPool_of_page hrules hpage (MemoryOptions.systemPageSize_toNat hsize)⟩

/-- In pages of 4 KiB the pool of eleven pages can always be filled. -/
theorem activate_reserve_small_pages :
    ∃ g h r, activate ⟨0, 0⟩ 0 (onlyTwentyMiB 4096 greatestThreshold)
        (Host.fresh ⟨[], []⟩ fun _ => 0) = (.ok g, h)
      ∧ g.lookup "r" = .ok r
      ∧ ∀ s k, Region.Run RowCall r h s k → (s.ensureFreeSpace k).1 = some (.ok ()) := by
  have hisOk : (activate ⟨0, 0⟩ 0 (onlyTwentyMiB 4096 greatestThreshold)
      (Host.fresh ⟨[], []⟩ fun _ => 0)).1.isOk = true := by decide +kernel
  rcases hok : activate ⟨0, 0⟩ 0 (onlyTwentyMiB 4096 greatestThreshold)
      (Host.fresh ⟨[], []⟩ fun _ => 0) with ⟨_ | g, h⟩
  · rw [hok] at hisOk
    cases hisOk
  · have hmem : twentyMiB greatestThreshold ∈ g.options.regions := by
      rw [(activate_ok hok).2.1]
      decide +kernel
    obtain ⟨r, hlookup, hfilled, -, hpage⟩ := activate_reserve hok rfl (by decide) hmem (Or.inl rfl)
    exact ⟨g, h, r, rfl, hlookup, hfilled (hpage (by decide))⟩

/-- In pages of one byte it cannot: three pages are above the watermark, and there are no eleven to
be evicted. -/
theorem activate_tiny_reserve_denied :
    ∃ g h r s k, activate ⟨0, 0⟩ 0 onlyTiny (Host.fresh ⟨[], []⟩ fun _ => 0) = (.ok g, h)
      ∧ g.lookup "r" = .ok r ∧ Region.Run RowCall r h s k
      ∧ ∃ fault, (s.ensureFreeSpace k).1 = some (.error fault) := by
  have hshort : ((activate ⟨0, 0⟩ 0 onlyTiny (Host.fresh ⟨[], []⟩ fun _ => 0)).1.toOption.bind
      fun g => (g.lookup "r").toOption.map fun r =>
        let s := (r.performEach (activate ⟨0, 0⟩ 0 onlyTiny (Host.fresh ⟨[], []⟩ fun _ => 0)).2
          [.insert 1, .insert 1, .insert 1]).1
        s.options.evicts s.persistence && s.isOver && decide (s.loaded.toNat = 3)
          && decide (s.options.poolTarget.toNat = 11)) = some true := by
    decide +kernel
  rcases hok : activate ⟨0, 0⟩ 0 onlyTiny (Host.fresh ⟨[], []⟩ fun _ => 0) with ⟨_ | g, h⟩
  · rw [hok] at hshort
    cases hshort
  · rw [hok] at hshort
    have hmem : fittedTiny ∈ g.options.regions := by
      rw [(activate_ok hok).2.1]
      decide +kernel
    obtain ⟨r, hlookup, hstarted, -⟩ :=
      activate_justStarted hok rfl (by decide) hmem (Or.inl rfl)
    change g.lookup "r" = .ok r at hlookup
    simp only [Except.toOption, Option.bind_some, hlookup, Option.map_some, Option.some.injEq,
      Bool.and_eq_true, decide_eq_true_eq] at hshort
    obtain ⟨⟨⟨hevicts, hover⟩, hloaded⟩, htarget⟩ := hshort
    have hfirst : Region.Run RowCall r h r h := .first
    have hrun := ((hfirst.call (.insert 1) (.insert 1)).call (.insert 1) (.insert 1)).call
      (.insert 1) (.insert 1)
    refine ⟨g, h, r, _, _, rfl, hlookup, hrun, ?_⟩
    refine ((hstarted.inv h).run hrun).ensureFreeSpace_refused hevicts hover ?_
    exact hloaded.trans_lt ((by decide : 3 < 11).trans_eq htarget.symm)

end Registry
end PageRegions
