import PageRegions.Options.Rules

/-!
# Settings that break no rule

What is known of settings that were looked at and accepted. The rules stop at the first that is
broken, so where none was broken each was looked at, for each region in turn; and what is filled in
on the way is filled in before the rules that are about it are looked at.
-/

set_option autoImplicit false

namespace PageRegions
namespace Rules

/-- What was found can be compared, so rules can be run in proofs. -/
instance : DecidableEq (Except Fault Unit)
  | .ok (), .ok () => isTrue rfl
  | .ok (), .error _ => isFalse nofun
  | .error _, .ok () => isFalse nofun
  | .error f, .error g => decidable_of_iff (f = g) (Except.error.injEq f g ▸ Iff.rfl)

theorem refuseIf_ok {broken : Prop} [Decidable broken] {fault : Fault} :
    refuseIf broken fault = .ok () ↔ ¬broken := by
  unfold refuseIf
  by_cases h : broken <;> simp [h]

/-- A rule that is looked at after another. -/
theorem bind_ok {first : Except Fault Unit} {rest : Unit → Except Fault Unit} :
    first >>= rest = .ok () ↔ first = .ok () ∧ rest () = .ok () := by
  cases first with
  | error => simp [bind, Except.bind]
  | ok => simp [bind, Except.bind]

/-- What the rules say on a region that evicts pages. -/
structure Evicts (o : RegionOptions) (pageSize : UInt32) : Prop where
  threshold_ge : o.threshold.less leastThreshold = false
  threshold_le : greatestThreshold.less o.threshold = false
  pool_gt : leastPoolSize < o.poolSize.toInt
  pool_lt : o.poolSize.toInt < poolLimit o pageSize

theorem eviction_ok {o : RegionOptions} {pageSize : UInt32} :
    eviction o pageSize = .ok () ↔ (o.mode ≠ .disabled → Evicts o pageSize) := by
  unfold eviction
  by_cases hmode : o.mode = .disabled
  · simp only [hmode, ne_eq, not_true_eq_false, if_false, false_implies, iff_true]
    rfl
  · simp only [ne_eq, hmode, not_false_eq_true, if_true, true_implies]
    rw [bind_ok, bind_ok, refuseIf_ok, refuseIf_ok, refuseIf_ok, not_or, Bool.not_eq_true,
      Bool.not_eq_true, Int.not_le, Int.not_le]
    constructor
    · rintro ⟨⟨hge, hle⟩, hgt, hlt⟩
      exact ⟨hge, hle, hgt, hlt⟩
    · rintro ⟨hge, hle, hgt, hlt⟩
      exact ⟨⟨hge, hle⟩, hgt, hlt⟩

/-- A region that is accepted does not shrink: one whose initial size is not asked for is fitted. -/
theorem regionSize_ok {narrow : Bool} {o : RegionOptions}
    (hok : (regionSize narrow o).result = .ok ()) :
    (regionSize narrow o).region.initialSize ≤ (regionSize narrow o).region.maxSize := by
  unfold regionSize at hok ⊢
  simp only at hok ⊢
  by_cases hsmall : (withInitialSize o).initialSize < Fault.leastRegionSize
  · rw [if_pos hsmall] at hok
    cases hok
  · rw [if_neg hsmall] at hok ⊢
    by_cases hbelow : (withInitialSize o).maxSize < (withInitialSize o).initialSize
    · rw [if_pos hbelow] at hok ⊢
      by_cases hasked : o.initialSize = 0
      · rw [if_pos hasked]
        exact UInt64.le_refl _
      · rw [if_neg hasked] at hok
        cases hok
    · rw [if_neg hbelow]
      exact UInt64.not_lt.mp hbelow

/-- What is known of a region that breaks no rule, as it is after what was filled in. -/
structure Accepted (settings : MemoryOptions) (o : RegionOptions) : Prop where
  size : o.initialSize ≤ o.maxSize
  evicts : settings.persistence = false → o.mode ≠ .disabled → Evicts o settings.pageSize

theorem region_ok (narrow : Bool) (settings : MemoryOptions) (observed : List String)
    (o : RegionOptions) (hok : (region narrow settings observed o).result = .ok ()) :
    Accepted settings (region narrow settings observed o).region := by
  unfold region at hok ⊢
  generalize regionName o.name settings.systemName observed = named at hok
  cases named with
  | error => cases hok
  | ok =>
    simp only at hok ⊢
    cases hsized : (regionSize narrow o).result with
    | error => simp [hsized] at hok
    | ok =>
      simp only [hsized] at hok ⊢
      cases hwindow : rateWindow (regionSize narrow o).region with
      | error => simp [hwindow] at hok
      | ok =>
        simp only [hwindow] at hok ⊢
        refine ⟨regionSize_ok hsized, fun hpersistence => eviction_ok.mp ?_⟩
        unfold evictionOrNote at hok
        rw [hpersistence, if_neg Bool.false_ne_true] at hok
        exact hok

/-- So are all regions, if no rule is broken by any. -/
theorem regions_ok {narrow : Bool} {settings : MemoryOptions} {observed : List String}
    {os checked : List RegionOptions} {notes : List Note}
    (hok : regions narrow settings observed os = (checked, notes, .ok ())) :
    ∀ o ∈ checked, Accepted settings o := by
  induction os generalizing observed checked notes with
  | nil =>
    cases hok
    intro o ho
    cases ho
  | cons first rest ih =>
    have hfirst := region_ok narrow settings observed first
    unfold regions at hok
    generalize region narrow settings observed first = sized at hok hfirst
    cases hresult : sized.result with
    | error => simp [hresult] at hok
    | ok =>
      rcases hrest : regions narrow settings (first.name :: observed) rest
        with ⟨more, noted, result⟩
      simp only [hresult, hrest] at hok
      cases hok
      intro o ho
      rcases List.mem_cons.mp ho with rfl | hmore
      · exact hfirst hresult
      · exact ih hrest o hmore

end Rules

namespace MemoryOptions

/-- What is filled in does not change the page size in use. -/
theorem withPageSize_same (o : MemoryOptions) :
    o.withPageSize.1.effectivePageSize = o.effectivePageSize
      ∧ o.withPageSize.1.persistence = o.persistence := by
  unfold withPageSize effectivePageSize
  by_cases hsize : o.pageSize = 0
  · simp [hsize, usualPageSize]
  · simp [hsize]

theorem effectivePageSize_ne_zero (o : MemoryOptions) : o.effectivePageSize ≠ 0 := by
  unfold effectivePageSize
  split
  · decide
  · assumption

theorem withPageSize_pageSize (o : MemoryOptions) :
    o.withPageSize.1.pageSize = o.effectivePageSize := by
  unfold withPageSize effectivePageSize
  split <;> rfl

/-- **What accepted settings are**: what was filled in is all that changed, and every region keeps
to the rules. -/
theorem check_ok {narrow : Bool} {o : MemoryOptions} (hok : (o.check narrow).result = .ok ()) :
    (o.check narrow).options.effectivePageSize = o.effectivePageSize
      ∧ (o.check narrow).options.persistence = o.persistence
      ∧ ∀ region ∈ (o.check narrow).options.regions, Rules.Accepted o.withPageSize.1 region := by
  obtain ⟨hsize, hpersistence⟩ := o.withPageSize_same
  unfold check at hok ⊢
  generalize o.withPageSize = paged at hok hsize hpersistence ⊢
  obtain ⟨p, noted⟩ := paged
  simp only at hok hsize hpersistence ⊢
  cases hname : Rules.systemName p.systemName p.defaultRegionName with
  | error => simp [hname] at hok
  | ok =>
    simp only [hname] at hok ⊢
    cases hsystem : Rules.systemSize narrow p.systemInitialSize p.systemMaxSize with
    | error => simp [hsystem] at hok
    | ok =>
      simp only [hsystem] at hok ⊢
      rcases hregions : Rules.regions narrow p [] p.regions with ⟨checked, notes, _ | _⟩
      · simp [hregions] at hok
      · simp only [hregions] at hok ⊢
        exact ⟨hsize, hpersistence, Rules.regions_ok hregions⟩

/-- A region of accepted settings that evicts keeps to the rules on that, at the page size in
use. -/
theorem check_evicts {narrow : Bool} {o : MemoryOptions} (hok : (o.check narrow).result = .ok ())
    (hpersistence : o.persistence = false) {region : RegionOptions}
    (hregion : region ∈ (o.check narrow).options.regions) (hmode : region.mode ≠ .disabled) :
    Rules.Evicts region o.effectivePageSize := by
  have haccepted := (check_ok hok).2.2 region hregion
  rw [← o.withPageSize_pageSize]
  exact haccepted.evicts (o.withPageSize_same.2.trans hpersistence) hmode

end MemoryOptions
end PageRegions
