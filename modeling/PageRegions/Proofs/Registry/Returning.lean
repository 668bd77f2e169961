import PageRegions.Proofs.Region.Returning
import PageRegions.Proofs.Registry.Sizes
import PageRegions.Proofs.Registry.Watermark

/-!
# Accepted settings for which making room never ends

Two places in the settings say whether pages of a region are evicted, and they do not ask the same.
Making room asks whether the mode is the one that switches eviction off. The choice of a tracker asks
for the modes that there are, and where the mode is none of them it falls back to the idle tracker.
A mode is a byte, the rules on settings accept every one, and so there are regions whose pages are to
be evicted by a tracker that evicts nothing (`MemoryOptions.stalls`).

For all other regions making room ends, whatever was asked of them before. Those hang as soon as they
are short of pages; and they can become so just if they have pages to spare (`activate_returns`).
-/

set_option autoImplicit false

namespace PageRegions

/-- Every kind of tracker is made as such. -/
theorem Tracker.fresh_kind (kind : TrackerKind) : (Tracker.fresh kind).kind = kind := by
  cases kind <;> rfl

namespace MemoryOptions

/-- Whether pages of a region are to be evicted, but it gets the idle tracker. -/
def stalls (o : MemoryOptions) (region : RegionOptions) : Bool :=
  region.evicts o.persistence
    && decide (TrackerKind.select region.mode o.persistence o.fairFifo = .idle)

variable {o : MemoryOptions} {region : RegionOptions}

/-- That is so just for modes that do not exist, where no fair queue takes their place. -/
theorem stalls_iff : o.stalls region = true
    ↔ o.persistence = false ∧ o.fairFifo = false ∧ ∃ code, region.mode = .unknown code := by
  unfold stalls RegionOptions.evicts TrackerKind.select
  cases o.persistence with
  | true => simp
  | false =>
    cases o.fairFifo with
    | true => cases region.mode <;> simp
    | false => cases region.mode <;> simp

end MemoryOptions

/-- A region that was just started and is to evict pages, but does not track them. -/
structure Region.Stalling (page : UInt32) (r : Region) : Prop where
  idle : r.tracker.kind = .idle
  evicts : r.options.evicts false = true
  pool : 0 < r.options.poolTarget
  /-- But for its tracker it is like any other. -/
  other : Region.JustStarted r.options page false (r.withTracker (Tracker.fresh .fairQueue).start)

namespace Registry

variable {m : Machine} {id : Nat} {o : MemoryOptions} {g : Registry} {h h' : Host} {r s : Region}

/-- The tracker that a region of an active registry keeps. -/
theorem activate_kind (hok : activate m id o h = (.ok g, h')) (hr : r ∈ g.regions) {k : Host}
    (hrun : Region.Run AnyCall r h' s k) :
    Region.Lasting r s ∧ r.persistence = g.options.persistence
      ∧ r.tracker.kind = TrackerKind.select r.options.mode g.options.persistence g.options.fairFifo := by
  obtain ⟨p, -, now, hlasting, -⟩ := activate_lasting hok hr
  refine ⟨hrun.lasting hlasting.coherent, hlasting.persistence, ?_⟩
  rw [hlasting.kind, hlasting.options]
  exact Tracker.fresh_kind _

/-- What is known of a region that stalls, at first. -/
theorem activate_stalls (hok : activate m id o h = (.ok g, h')) (hr : r ∈ g.regions)
    (hstalls : g.options.stalls r.options = true)
    (hsize : o.effectivePageSize.toNat + 24 < 2 ^ 32) : r.Stalling o.effectivePageSize := by
  obtain ⟨hpersistence, -, code, hmode⟩ := MemoryOptions.stalls_iff.mp hstalls
  obtain ⟨-, -, hkind⟩ := activate_kind hok hr .first
  obtain ⟨hchecked, hoptions, -⟩ := activate_ok hok
  obtain ⟨hpage, hkept, -⟩ := MemoryOptions.check_ok hchecked
  rw [← hoptions] at hpage hkept
  have hoff : r.options.mode ≠ .disabled := by
    rw [hmode]
    nofun
  unfold MemoryOptions.stalls at hstalls
  rw [Bool.and_eq_true, decide_eq_true_iff, hpersistence] at hstalls
  rw [hpersistence] at hkind
  obtain ⟨p, hp, now, k, k', hstart⟩ := activate_mem hok hr
  have hsame : r.options = p.options := by
    have hkeeps := (Region.start_parts (made g.options p now) k).2.2.1
    rw [hstart] at hkeeps
    exact hkeeps
  refine ⟨hkind.trans hstalls.2, hstalls.1, ?_, ?_⟩
  · have hregion : r.options ∈ (o.check false).options.regions := by
      rw [hsame, ← hoptions]
      exact (plan_options hp).resolve_right (by rw [← hsame]; exact hoff)
    have hrules := MemoryOptions.check_evicts hchecked (hkept.symm.trans hpersistence) hregion hoff
    exact RegionOptions.poolTarget_pos (Int.lt_trans (by decide) hrules.pool_gt)
  · unfold made at hstart
    rw [hpage, hpersistence, ← hsame] at hstart
    obtain ⟨k'', hother⟩ := Region.start_withTracker hstart .fairQueue
    exact Region.start_justStarted (by decide) hsize hother

/-- **Making room ends in every region of an active registry but for those that stall**, at any time
and whatever was asked of them. A region that stalls hangs whenever it is short of pages. If it has
pages to spare it is enough to fill one after the other, and a row is neither placed nor refused,
unless memory could not be mapped; if it has none, no calls of clients make it short of pages. -/
theorem activate_returns (hok : activate m id o h = (.ok g, h')) (hr : r ∈ g.regions) :
    (g.options.stalls r.options = false → ∀ s k, Region.Run AnyCall r h' s k →
        s.options.evicts s.persistence = false ∧ s.ensureFreeSpace k = (some (.ok ()), s, k)
          ∨ s.Returns k)
      ∧ (g.options.stalls r.options = true →
        (∀ s k, Region.Run AnyCall r h' s k → s.Hangs k)
          ∧ (o.effectivePageSize.toNat + 24 < 2 ^ 32 →
            (r.options.sparesPages (o.effectivePageSize + 24) = true →
              (r.insertRows o.effectivePageSize
                  (r.options.pageCount (o.effectivePageSize + 24) + 1) h').1 = none
                ∨ ∃ fault, (r.insertRows o.effectivePageSize
                    (r.options.pageCount (o.effectivePageSize + 24) + 1) h').1
                    = some (.error fault) ∧ fault.isMapping = true)
            ∧ (r.options.sparesPages (o.effectivePageSize + 24) = false →
              ∀ s k, Region.Run ClientCall r h' s k →
                s.ensureFreeSpace k = (some (.ok ()), s, k)))) := by
  refine ⟨fun hnot s k hrun => ?_, fun hstalls => ⟨fun s k hrun => ?_, fun hsize => ?_⟩⟩
  · obtain ⟨hlasting, hpersistence, hkind⟩ := activate_kind hok hr hrun
    cases hevicts : s.options.evicts s.persistence with
    | false => exact Or.inl ⟨rfl, Region.ensureFreeSpace_of_not_evicts hevicts k⟩
    | true =>
      refine Or.inr (Region.returns_of_kind hlasting.coherent ?_ k)
      rw [hlasting.options, hlasting.persistence, hpersistence] at hevicts
      rw [hlasting.kind, hkind]
      intro hidle
      unfold MemoryOptions.stalls at hnot
      rw [hevicts, hidle] at hnot
      cases hnot
  · obtain ⟨hlasting, hpersistence, hkind⟩ := activate_kind hok hr hrun
    unfold MemoryOptions.stalls at hstalls
    rw [Bool.and_eq_true, decide_eq_true_iff] at hstalls
    refine Region.hangs_of_idle ?_ ?_ k
    · rw [hlasting.kind, hkind]
      exact hstalls.2
    · rw [hlasting.options, hlasting.persistence, hpersistence]
      exact hstalls.1
  · have hstalling := activate_stalls hok hr hstalls hsize
    exact hstalling.other.hangs hstalling.idle o.effectivePageSize_ne_zero hstalling.evicts
      hstalling.pool h'

/-- The region of 120 bytes samples pages to be evicted, so it always answers. -/
theorem activate_returns_tiny :
    ∃ g h r, activate ⟨0, 0⟩ 0 onlyTiny (Host.fresh ⟨[], []⟩ fun _ => 0) = (.ok g, h)
      ∧ g.lookup "r" = .ok r
      ∧ ∀ s k, Region.Run AnyCall r h s k → (s.ensureFreeSpace k).1 ≠ none := by
  obtain ⟨g, h, r, hok, hlookup, hoptions⟩ := activate_onlyTiny
  have hnot : g.options.stalls r.options = false := by
    rw [Bool.eq_false_iff, Ne, MemoryOptions.stalls_iff, hoptions]
    rintro ⟨-, -, code, hunknown⟩
    cases hunknown
  refine ⟨g, h, r, hok, hlookup, fun s k hrun => ?_⟩
  obtain ⟨hall, -⟩ := activate_returns hok (mem_of_lookup hlookup).1
  rcases hall hnot s k hrun with ⟨-, henough⟩ | hreturns
  · rw [henough]
    nofun
  · exact hreturns.some

/-- The settings of a registry with that region, in a mode that does not exist. -/
def onlyUnknown : MemoryOptions :=
  { onlyTiny with regions := [{ tiny with mode := .unknown 9 }] }

/-- **In a mode that does not exist** three pages are above the watermark, evicting one succeeds and
changes nothing, and making room never ends. -/
theorem activate_unknown_mode_hangs :
    (onlyUnknown.check false).result = .ok ()
      ∧ ∃ g h r s k, activate ⟨0, 0⟩ 0 onlyUnknown (Host.fresh ⟨[], []⟩ fun _ => 0) = (.ok g, h)
        ∧ g.lookup "r" = .ok r ∧ Region.Run AnyCall r h s k
        ∧ s.evictPage k = (.ok (), s, k) ∧ (s.ensureFreeSpace k).1 = none
        ∧ ∀ n result t,
          ¬ Region.supply.Leaves s.watermark s.options.poolTarget n (s, k) result t := by
  let calls := [RegionCall.insert 1, .insert 1, .insert 1]
  have htest : activates ⟨0, 0⟩ onlyUnknown (Host.fresh ⟨[], []⟩ fun _ => 0) "r" (fun r h =>
      let s := (r.performEach h calls).1
      decide (s.tracker.kind = .idle) && s.options.evicts s.persistence && s.isOver
        && decide (s.pooled < s.options.poolTarget)) = true := by decide +kernel
  obtain ⟨g, h, r, hok, hlookup, hfound⟩ := activates_eq_true htest
  simp only [Bool.and_eq_true, decide_eq_true_eq] at hfound
  obtain ⟨⟨⟨hidle, hevicts⟩, hover⟩, hlack⟩ := hfound
  have hhangs := Region.hangs_of_idle hidle hevicts (r.performEach h calls).2
  exact ⟨(activate_ok hok).1, g, h, r, _, _, hok, hlookup,
    Region.Run.performEach calls (fun _ _ _ => trivial) .first, hhangs.same,
    hhangs.none.mpr ⟨hover, hlack⟩, hhangs.never hover hlack⟩

end Registry
end PageRegions
