import Mathlib.Data.List.Nodup
import PageRegions.Registry

/-!
# What activating a registry comes to

An active registry has a region for each one that was planned, started and not used since, and finds
it by its name. Names are what this hangs on: a region is not made if another has its name, and
starting one leaves its name alone, so a look-up can find no other.

Regions are started one after the other on one host, and so what is known of each is known of the
host at its start, not of the host in the end.
-/

set_option autoImplicit false

namespace PageRegions

namespace Region

/-- Starting a region leaves its name alone. -/
theorem name_of_start {r r' : Region} {h k : Host} {result : Except Fault Unit}
    (hstart : r.start h = (result, r', k)) : r'.name = r.name := by
  unfold start at hstart
  rcases hstore : r.store.start h with ⟨_ | _, store, k'⟩
  · rw [hstore] at hstart
    cases hstart
    rfl
  · rw [hstore] at hstart
    cases hstart
    rfl

end Region

namespace Registry

/-- The region that is made for a planned one. -/
def made (o : MemoryOptions) (planned : PlannedRegion) (now : UInt64) : Region :=
  Region.fresh now planned.options o.effectivePageSize planned.isDefault o.persistence
    (TrackerKind.select planned.options.mode o.persistence o.fairFifo) (o.backing planned.options)
    true

/-! ## Making regions -/

theorem addRegion_ok {g g' : Registry} {planned : PlannedRegion} {h h' : Host}
    (hok : g.addRegion planned.options planned.isDefault h = (.ok (), g', h')) :
    g' = { g with regions := g.regions ++ [made g.options planned h.now] }
      ∧ ∀ r ∈ g.regions, r.name ≠ planned.options.name := by
  unfold addRegion at hok
  by_cases hany : (g.regions.any fun r => r.name = planned.options.name) = true
  · rw [if_pos hany] at hok
    cases hok
  · rw [if_neg hany] at hok
    have hnew : ∀ r ∈ g.regions, r.name ≠ planned.options.name := by
      intro r hr hname
      exact hany (List.any_eq_true.mpr ⟨r, hr, decide_eq_true hname⟩)
    simp only at hok
    split at hok
    · next hbacking =>
      cases hok
      exact ⟨rfl, hnew⟩
    · next directory hbacking =>
      generalize h.ensureDirectories directory = out at hok
      obtain ⟨_ | _, k⟩ := out
      · cases hok
      · cases hok
        exact ⟨rfl, hnew⟩

/-- All planned regions are made, in their order, and no two have one name. -/
theorem addPlanned_ok {planned : List PlannedRegion} {g g' : Registry} {h h' : Host}
    (hnodup : (g.regions.map (·.name)).Nodup)
    (hok : g.addPlanned planned h = (.ok (), g', h')) :
    g'.options = g.options ∧ (g'.regions.map (·.name)).Nodup
      ∧ (∀ r ∈ g.regions, r ∈ g'.regions)
      ∧ ∀ p ∈ planned, ∃ now, made g.options p now ∈ g'.regions := by
  induction planned generalizing g h with
  | nil =>
    cases hok
    exact ⟨rfl, hnodup, fun _ hr => hr, nofun⟩
  | cons first rest ih =>
    unfold addPlanned at hok
    rcases hadd : g.addRegion first.options first.isDefault (h.record first.notes)
      with ⟨_ | _, added, k⟩
    · rw [hadd] at hok
      cases hok
    · rw [hadd] at hok
      obtain ⟨rfl, hnew⟩ := addRegion_ok hadd
      have hnodup' : ((g.regions ++ [made g.options first (h.record first.notes).now]).map
          (·.name)).Nodup := by
        rw [List.map_append, List.map_singleton, List.nodup_append]
        refine ⟨hnodup, List.nodup_singleton _, fun name hname other hother => ?_⟩
        obtain ⟨r, hr, rfl⟩ := List.mem_map.mp hname
        rw [List.mem_singleton] at hother
        rw [hother]
        exact hnew r hr
      obtain ⟨hoptions, hall, hkept, hmade⟩ := ih hnodup' hok
      refine ⟨hoptions, hall, fun r hr => hkept r (List.mem_append_left _ hr), ?_⟩
      intro p hp
      rcases List.mem_cons.mp hp with rfl | hrest
      · exact ⟨_, hkept _ (List.mem_append_right _ List.mem_cons_self)⟩
      · exact hmade p hrest

/-- No other regions are made than the planned ones. -/
theorem addPlanned_mem {planned : List PlannedRegion} {g g' : Registry} {h h' : Host}
    (hok : g.addPlanned planned h = (.ok (), g', h')) {r : Region} (hr : r ∈ g'.regions) :
    r ∈ g.regions ∨ ∃ p ∈ planned, ∃ now, r = made g.options p now := by
  induction planned generalizing g h with
  | nil =>
    cases hok
    exact Or.inl hr
  | cons first rest ih =>
    unfold addPlanned at hok
    rcases hadd : g.addRegion first.options first.isDefault (h.record first.notes)
      with ⟨_ | _, added, k⟩
    · rw [hadd] at hok
      cases hok
    · rw [hadd] at hok
      obtain ⟨rfl, -⟩ := addRegion_ok hadd
      rcases ih hok with hbefore | ⟨p, hp, hmade⟩
      · rcases List.mem_append.mp hbefore with hold | hnew
        · exact Or.inl hold
        · exact Or.inr ⟨first, List.mem_cons_self, _, List.mem_singleton.mp hnew⟩
      · exact Or.inr ⟨p, List.mem_cons_of_mem _ hp, hmade⟩

/-- A planned region is one of the user's, or its pages are not evicted. -/
theorem plan_options {m : Machine} {o : MemoryOptions} {p : PlannedRegion} (hp : p ∈ o.plan m) :
    p.options ∈ o.regions ∨ p.options.mode = .disabled := by
  unfold MemoryOptions.plan at hp
  rw [List.mem_append, List.mem_append, List.mem_singleton] at hp
  rcases hp with (hdefault | huser) | rfl
  · split at hdefault
    · rw [List.mem_singleton.mp hdefault]
      exact Or.inr rfl
    · cases hdefault
  · obtain ⟨region, hregion, rfl⟩ := List.mem_map.mp huser
    exact Or.inl hregion
  · exact Or.inr rfl

/-! ## Starting them -/

theorem startEach_ok {rs rs' : List Region} {h h' : Host}
    (hok : startEach rs h = (.ok (), rs', h')) :
    rs'.map (·.name) = rs.map (·.name)
      ∧ ∀ r ∈ rs, ∃ r' ∈ rs', ∃ k k', r.start k = (.ok (), r', k') := by
  induction rs generalizing rs' h with
  | nil =>
    unfold startEach at hok
    cases hok
    exact ⟨rfl, fun r hr => absurd hr List.not_mem_nil⟩
  | cons first rest ih =>
    unfold startEach at hok
    rcases hstart : first.start h with ⟨_ | _, r, k⟩
    · rw [hstart] at hok
      cases hok
    · rw [hstart] at hok
      rcases hmore : startEach rest k with ⟨result, more, k'⟩
      simp only [hmore] at hok
      cases hok
      obtain ⟨hnames, hstarted⟩ := ih hmore
      refine ⟨congrArg₂ List.cons (Region.name_of_start hstart) hnames, fun x hx => ?_⟩
      rcases List.mem_cons.mp hx with rfl | hrest
      · exact ⟨r, List.mem_cons_self, h, k, hstart⟩
      · obtain ⟨x', hx', hfrom⟩ := hstarted x hrest
        exact ⟨x', List.mem_cons_of_mem _ hx', hfrom⟩

/-- No other regions are there afterwards than those that were started. -/
theorem startEach_mem {rs rs' : List Region} {h h' : Host}
    (hok : startEach rs h = (.ok (), rs', h')) {r' : Region} (hr : r' ∈ rs') :
    ∃ r ∈ rs, ∃ k k', r.start k = (.ok (), r', k') := by
  induction rs generalizing rs' h with
  | nil =>
    unfold startEach at hok
    cases hok
    cases hr
  | cons first rest ih =>
    unfold startEach at hok
    rcases hstart : first.start h with ⟨_ | _, r, k⟩
    · rw [hstart] at hok
      cases hok
    · rw [hstart] at hok
      rcases hmore : startEach rest k with ⟨result, more, k'⟩
      simp only [hmore] at hok
      cases hok
      rcases List.mem_cons.mp hr with rfl | hrest
      · exact ⟨first, List.mem_cons_self, h, k, hstart⟩
      · obtain ⟨x, hx, hfrom⟩ := ih hmore hrest
        exact ⟨x, List.mem_cons_of_mem _ hx, hfrom⟩

theorem lookup_of_mem {g : Registry} (hactive : g.active = true)
    (hnodup : (g.regions.map (·.name)).Nodup) {r : Region} (hr : r ∈ g.regions) :
    g.lookup r.name = .ok r := by
  have hfind : g.regions.find? (fun x => x.name = r.name) = some r := by
    obtain ⟨before, after, hsplit⟩ := List.append_of_mem hr
    rw [hsplit, List.map_append, List.map_cons, List.nodup_append] at hnodup
    rw [hsplit, List.find?_append, List.find?_eq_none.mpr, Option.none_or,
      List.find?_cons_of_pos]
    · exact decide_eq_true rfl
    intro x hx hname
    exact hnodup.2.2 _ (List.mem_map_of_mem hx) _ List.mem_cons_self (of_decide_eq_true hname)
  unfold lookup
  rw [hactive, hfind]
  rfl

theorem mem_of_lookup {g : Registry} {r : Region} {name : String}
    (hlookup : g.lookup name = .ok r) :
    r ∈ g.regions ∧ r.name = name := by
  unfold lookup at hlookup
  split at hlookup
  · cases hlookup
  split at hlookup
  · cases hlookup
  · next found hfind =>
    cases hlookup
    have hname := List.find?_some hfind
    exact ⟨List.mem_of_find?_eq_some hfind, of_decide_eq_true hname⟩

/-- What was done when a registry was activated. -/
theorem activate_eq_ok {m : Machine} {id : Nat} {o : MemoryOptions} {g : Registry} {h h' : Host}
    (hok : activate m id o h = (.ok g, h')) :
    (o.check false).result = .ok () ∧ ∃ added k started k',
      (fresh id (o.check false).options).addPlanned ((o.check false).options.plan m)
          ((h.record (o.check false).notes).record (o.check false).options.dump)
        = (.ok (), added, k)
      ∧ startEach added.regions k = (.ok (), started, k')
      ∧ g = { added with regions := started, active := true }
      ∧ h' = k'.record [g.activeNote] := by
  unfold activate at hok
  simp only at hok
  cases hchecked : (o.check false).result with
  | error => simp [hchecked] at hok
  | ok =>
    simp only [hchecked] at hok
    unfold bringUp at hok
    rcases hadd : (fresh id (o.check false).options).addPlanned
        ((fresh id (o.check false).options).options.plan m)
        ((h.record (o.check false).notes).record (o.check false).options.dump)
      with ⟨_ | _, added, k⟩
    · rw [hadd] at hok
      cases hok
    · rw [hadd] at hok
      simp only at hok
      rcases hstart : startEach added.regions k with ⟨_ | _, started, k'⟩
      · rw [hstart] at hok
        cases hok
      · rw [hstart] at hok
        cases hok
        exact ⟨rfl, added, k, started, k', hadd, hstart, rfl, rfl⟩

/-- **An active registry** has the settings that were accepted, and for each of the user's regions
one that was just started. -/
theorem activate_ok {m : Machine} {id : Nat} {o : MemoryOptions} {g : Registry} {h h' : Host}
    (hok : activate m id o h = (.ok g, h')) :
    (o.check false).result = .ok () ∧ g.options = (o.check false).options
      ∧ ∀ region ∈ g.options.regions, ∃ r now k k', g.lookup region.name = .ok r
          ∧ (made g.options (g.options.planUser region) now).start k = (.ok (), r, k') := by
  obtain ⟨hchecked, added, k, started, k', hadd, hstart, rfl, -⟩ := activate_eq_ok hok
  obtain ⟨hoptions, hnodup, -, hmade⟩ :=
    addPlanned_ok (g := fresh id (o.check false).options) List.nodup_nil hadd
  obtain ⟨hnames, hstarted⟩ := startEach_ok hstart
  refine ⟨hchecked, hoptions, fun region hregion => ?_⟩
  change region ∈ added.options.regions at hregion
  obtain ⟨now, hmem⟩ := hmade (added.options.planUser region) (by
    rw [hoptions] at hregion ⊢
    refine List.mem_append_left _ (List.mem_append_right _ ?_)
    exact List.mem_map_of_mem hregion)
  rw [← hoptions] at hmem
  obtain ⟨r, hr, k₁, k₂, hfrom⟩ := hstarted _ hmem
  have hname : r.name = region.name := Region.name_of_start hfrom
  refine ⟨r, now, k₁, k₂, ?_, hfrom⟩
  rw [← hname]
  exact lookup_of_mem rfl (by rw [hnames]; exact hnodup) hr

/-- **Each region of an active registry** is one that was planned, made and started. -/
theorem activate_mem {m : Machine} {id : Nat} {o : MemoryOptions} {g : Registry} {h h' : Host}
    (hok : activate m id o h = (.ok g, h')) {r : Region} (hr : r ∈ g.regions) :
    ∃ p ∈ g.options.plan m, ∃ now k k', (made g.options p now).start k = (.ok (), r, k') := by
  obtain ⟨-, added, k, started, k', hadd, hstart, rfl, -⟩ := activate_eq_ok hok
  obtain ⟨hoptions, -⟩ :=
    addPlanned_ok (g := fresh id (o.check false).options) List.nodup_nil hadd
  obtain ⟨first, hfirst, k₁, k₂, hfrom⟩ := startEach_mem hstart hr
  change ∃ p ∈ added.options.plan m, ∃ now k k', (made added.options p now).start k = (.ok (), r, k')
  rw [hoptions]
  rcases addPlanned_mem hadd hfirst with hnone | ⟨p, hp, now, rfl⟩
  · cases hnone
  · exact ⟨p, hp, now, k₁, k₂, hfrom⟩

/-! ## Registries that can be computed -/

/-- Whether a registry becomes active and a region of it passes a test. -/
def activates (m : Machine) (o : MemoryOptions) (h : Host) (name : String)
    (test : Region → Host → Bool) : Bool :=
  match activate m 0 o h with
  | (.error _, _) => false
  | (.ok g, h) =>
    match g.lookup name with
    | .error _ => false
    | .ok r => test r h

theorem activates_eq_true {m : Machine} {o : MemoryOptions} {h : Host} {name : String}
    {test : Region → Host → Bool} (htest : activates m o h name test = true) :
    ∃ g h' r, activate m 0 o h = (.ok g, h') ∧ g.lookup name = .ok r ∧ test r h' = true := by
  unfold activates at htest
  rcases hok : activate m 0 o h with ⟨_ | g, h'⟩
  · rw [hok] at htest
    cases htest
  · rw [hok] at htest
    cases hlookup : g.lookup name with
    | error =>
      simp only [hlookup] at htest
      cases htest
    | ok r =>
      simp only [hlookup] at htest
      exact ⟨g, h', r, rfl, hlookup, htest⟩

end Registry
end PageRegions
