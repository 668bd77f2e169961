import PageRegions.Proofs.Memory.Chunks
import PageRegions.Proofs.Options.Accepted
import PageRegions.Proofs.Region.Lasting
import PageRegions.Proofs.Registry.Watermark

/-!
# Sizes of pages, and what is lost of memory

Two numbers of a region are 32-bit words although nothing in the settings keeps them small: the size
of a page with its header, and the number of pages of a chunk.

A page size is accepted whatever it is. There is room for the header in the word just if it is not
one of the twenty-four greatest, and for those the pages of a region share bytes
(`activate_spaced`). And a chunk is handed out as a whole just if its pages can be counted
(`activate_handsOut`); of others so many are lost as fit in it, but for a remainder, and the region
reports that its memory is used up.
-/

set_option autoImplicit false

namespace PageRegions
namespace Registry

variable {m : Machine} {id : Nat} {o : MemoryOptions} {g : Registry} {h h' k : Host} {r s : Region}

/-- A region of an active registry keeps what it was made with, and its page memory was started. -/
theorem activate_lasting (hok : activate m id o h = (.ok g, h')) (hr : r ∈ g.regions) :
    ∃ p ∈ g.options.plan m, ∃ now, Region.Lasting (made g.options p now) r
      ∧ PageMemory.Step (made g.options p now).store.memory r.store.memory := by
  obtain ⟨p, hp, now, k, k', hstart⟩ := activate_mem hok hr
  have hfresh : Region.Lasting (made g.options p now) (made g.options p now) :=
    ⟨rfl, rfl, Tracker.coherent_fresh _, rfl⟩
  have hstarted := hfresh.start k
  have hstep := PageMemory.Step.start (m := (made g.options p now).store.memory) k
  rw [← ((made g.options p now).start_parts k).2.1] at hstep
  rw [hstart] at hstarted hstep
  exact ⟨p, hp, now, hstarted, hstep⟩

/-- All regions have pages of the size in use, at any time. -/
theorem run_pageSize (hok : activate m id o h = (.ok g, h')) (hr : r ∈ g.regions)
    (hrun : Region.Run AnyCall r h' s k) : s.store.memory.pageSize = o.effectivePageSize := by
  obtain ⟨hchecked, hoptions, -⟩ := activate_ok hok
  obtain ⟨p, -, now, -, hstep⟩ := activate_lasting hok hr
  have hmade : (made g.options p now).store.memory.pageSize = g.options.effectivePageSize := rfl
  rw [(hstep.sameSizes.trans hrun.sameSizes).pageSize, hmade, hoptions]
  exact (MemoryOptions.check_ok hchecked).1

set_option maxRecDepth 100000 in
/-- The region of 120 bytes, as it is when its registry becomes active. -/
theorem activate_onlyTiny :
    ∃ g h r, activate ⟨0, 0⟩ 0 onlyTiny (Host.fresh ⟨[], []⟩ fun _ => 0) = (.ok g, h)
      ∧ g.lookup "r" = .ok r ∧ r.options = fittedTiny := by
  have htest : activates ⟨0, 0⟩ onlyTiny (Host.fresh ⟨[], []⟩ fun _ => 0) "r" (fun r _ =>
      decide (r.options = fittedTiny)) = true := by decide
  obtain ⟨g, h, r, hok, hlookup, hoptions⟩ := activates_eq_true htest
  exact ⟨g, h, r, hok, hlookup, of_decide_eq_true hoptions⟩

/-! ## Sizes of pages -/

/-- **Page sizes are safe just if there is room for the header in their word**, for every region of
an active registry and at any time. If so, sizes are divided by a number that is not zero and greater
than the page, and different pages of a segment share no byte. If not, neighbouring pages do. -/
theorem activate_spaced (hok : activate m id o h = (.ok g, h')) (hr : r ∈ g.regions)
    (hrun : Region.Run AnyCall r h' s k) :
    s.store.memory.pageSize = o.effectivePageSize
      ∧ (s.store.memory.Spaced ↔ o.effectivePageSize.toNat + 24 < 2 ^ 32)
      ∧ (2 ^ 32 ≤ o.effectivePageSize.toNat + 24 → s.store.memory.Wrapped) := by
  have hsize := run_pageSize hok hr hrun
  refine ⟨hsize, ?_, fun hwide => ?_⟩
  · rw [← hsize]
    exact PageMemory.spaced_iff
  · rw [← hsize] at hwide
    exact PageMemory.wrapped_of_not_fits hwide

/-- Pages of one byte take twenty-five with their header, and the first two of them share no byte. -/
theorem activate_spaced_tiny :
    ∃ g h r s k, activate ⟨0, 0⟩ 0 onlyTiny (Host.fresh ⟨[], []⟩ fun _ => 0) = (.ok g, h)
      ∧ g.lookup "r" = .ok r ∧ Region.Run AnyCall r h s k
      ∧ s.store.memory.pageSize = 1 ∧ s.store.memory.systemPageSize.toNat = 25
      ∧ Disjoint (s.store.memory.payload ⟨0, 0⟩) (s.store.memory.payload ⟨0, 1⟩) := by
  obtain ⟨g, h, r, hok, hlookup, -⟩ := activate_onlyTiny
  have hrun : Region.Run AnyCall r h _ _ :=
    (Region.Run.call .allocate .first trivial).call .allocate trivial
  obtain ⟨hsize, hspaced, -⟩ := activate_spaced hok (mem_of_lookup hlookup).1 hrun
  have hsafe := hspaced.mpr (by decide)
  have hsum := hsafe.sum
  rw [hsize] at hsum
  exact ⟨g, h, r, _, _, hok, hlookup, hrun, hsize, hsum, hsafe.apart _ _ (by decide) rfl⟩

/-- The settings of a registry whose pages are as large as can be. -/
def onlyGreatest : MemoryOptions :=
  { onlyTwentyMiB 4294967295 greatestThreshold with
    regions := [{ twentyMiB greatestThreshold with mode := .disabled }] }

/-- **The greatest pages share bytes.** They follow each other in steps of twenty-three, which is
less than their headers take. -/
theorem activate_greatest_pages_overlap :
    (onlyGreatest.check false).result = .ok ()
      ∧ ∃ g h r s k, activate ⟨0, 0⟩ 0 onlyGreatest (Host.fresh ⟨[], []⟩ fun _ => 0) = (.ok g, h)
        ∧ g.lookup "r" = .ok r ∧ Region.Run AnyCall r h s k
        ∧ s.store.memory.pageSize = 4294967295 ∧ s.store.memory.systemPageSize = 23
        ∧ s.store.memory.header? ⟨0, 0⟩ = some (0, 0) ∧ s.store.memory.header? ⟨0, 1⟩ = some (0, 23)
        ∧ ¬ Disjoint (s.store.memory.payload ⟨0, 0⟩) (s.store.memory.payload ⟨0, 1⟩) := by
  let calls := [RegionCall.allocate, .allocate]
  have htest : activates ⟨0, 0⟩ onlyGreatest (Host.fresh ⟨[], []⟩ fun _ => 0) "r" (fun r h =>
      let m := (r.performEach h calls).1.store.memory
      decide (m.pageSize = 4294967295) && decide (m.systemPageSize = 23)
        && decide (m.header? ⟨0, 0⟩ = some (0, 0))
        && decide (m.header? ⟨0, 1⟩ = some (0, 23))) = true := by decide +kernel
  obtain ⟨g, h, r, hok, hlookup, hfound⟩ := activates_eq_true htest
  simp only [Bool.and_eq_true, decide_eq_true_eq] at hfound
  obtain ⟨⟨⟨hpage, hsystem⟩, hfirst⟩, hsecond⟩ := hfound
  refine ⟨(activate_ok hok).1, g, h, r, _, _, hok, hlookup,
    Region.Run.performEach calls (fun _ _ _ => trivial) .first, hpage, hsystem, hfirst, hsecond, ?_⟩
  have hwrapped := PageMemory.wrapped_of_not_fits (m := (r.performEach h calls).1.store.memory)
    (by rw [hpage]; decide)
  exact hwrapped.overlap ⟨0, 0⟩ ⟨0, 1⟩ rfl rfl

/-! ## Chunks -/

theorem run_standing (hok : activate m id o h = (.ok g, h')) (hr : r ∈ g.regions)
    (hsize : o.effectivePageSize.toNat + 24 < 2 ^ 32) (hrun : Region.Run AnyCall r h' s k) :
    s.store.memory.Standing := by
  obtain ⟨hchecked, hoptions, -⟩ := activate_ok hok
  obtain ⟨p, -, now, -, hstep⟩ := activate_lasting hok hr
  have hpage : g.options.effectivePageSize = o.effectivePageSize := by
    rw [hoptions]
    exact (MemoryOptions.check_ok hchecked).1
  have hfresh : (made g.options p now).store.memory.Standing :=
    (PageMemory.stopped_fresh p.options _ _ (by rw [hpage]; exact hsize)).standing
  exact hrun.memory (I := PageMemory.Standing) (fun _ _ hm hstep => hm.step hstep)
    (hfresh.step hstep)

/-- **A chunk is handed out as a whole just if its pages can be counted in 32 bits**, for every region
of an active registry, at any time, and however its pages are used. If they cannot be counted, only
the remainder is handed out that is left in the word, and memory is reported to be used up all the
same. -/
theorem activate_handsOut (hok : activate m id o h = (.ok g, h')) (hr : r ∈ g.regions)
    (hsize : o.effectivePageSize.toNat + 24 < 2 ^ 32) (hrun : Region.Run AnyCall r h' s k) {i : Nat}
    {size : UInt64}
    (hchunk : (Segments.sizes r.options.initialSize r.options.maxSize)[i]? = some size) :
    (size.toNat / (o.effectivePageSize.toNat + 24) < 2 ^ 32 →
        s.store.memory.HandsOut k i (size.toNat / (o.effectivePageSize.toNat + 24)))
      ∧ (2 ^ 32 ≤ size.toNat / (o.effectivePageSize.toNat + 24) →
        s.store.memory.HandsOut k i (size.toNat / (o.effectivePageSize.toNat + 24) % 2 ^ 32)
          ∧ s.store.memory.handedOutOf i < size.toNat / (o.effectivePageSize.toNat + 24)) := by
  obtain ⟨p, -, now, hlasting, hstep⟩ := activate_lasting hok hr
  have hsame := hstep.sameSizes.trans hrun.sameSizes
  have hsizes : Segments.sizes s.store.memory.initialSize s.store.memory.maxSize
      = Segments.sizes r.options.initialSize r.options.maxSize := by
    rw [hsame.initialSize, hsame.maxSize, hlasting.options]
    rfl
  rw [← hsizes] at hchunk
  have hhands := (run_standing hok hr hsize hrun).handsOut k hchunk
  rw [run_pageSize hok hr hrun] at hhands
  refine ⟨fun hfew => ?_, fun hmany => ⟨hhands, ?_⟩⟩
  · rw [Nat.mod_eq_of_lt hfew] at hhands
    exact hhands
  · refine hhands.most.trans_lt ((Nat.mod_lt _ (Nat.two_pow_pos 32)).trans_le hmany)

/-- Four pages fit in the chunk of 120 bytes, and are handed out. -/
theorem activate_handsOut_tiny :
    ∃ g h r s k, activate ⟨0, 0⟩ 0 onlyTiny (Host.fresh ⟨[], []⟩ fun _ => 0) = (.ok g, h)
      ∧ g.lookup "r" = .ok r ∧ Region.Run AnyCall r h s k ∧ s.store.memory.HandsOut k 0 4 := by
  obtain ⟨g, h, r, hok, hlookup, hoptions⟩ := activate_onlyTiny
  have hchunk : (Segments.sizes r.options.initialSize r.options.maxSize)[0]? = some 120 := by
    rw [hoptions]
    rfl
  have hrun : Region.Run AnyCall r h _ _ := .call (.insert 1) .first trivial
  obtain ⟨hall, -⟩ := activate_handsOut hok (mem_of_lookup hlookup).1 (by decide) hrun hchunk
  exact ⟨g, h, r, _, _, hok, hlookup, hrun, hall (by decide)⟩

/-- The settings of a registry with a region of 100 GiB, in a swap file, in pages of one byte. -/
def onlyVast : MemoryOptions :=
  { onlyTiny with
    regions := [{ tiny with
      mode := .disabled
      initialSize := 107374182400
      maxSize := 107374182400
      swapPath := "swap" }] }

/-- **Of a chunk of 100 GiB nothing is handed out**: as many pages fit in it as there are 32-bit
words, and they are counted as none. The first row finds memory used up. -/
theorem activate_handsOut_none :
    (onlyVast.check false).result = .ok () ∧ onlyVast.effectivePageSize.toNat + 24 < 2 ^ 32
      ∧ ∃ g h r s k, activate ⟨0, 0⟩ 0 onlyVast (Host.fresh .scratch fun _ => 0) = (.ok g, h)
        ∧ g.lookup "r" = .ok r ∧ Region.Run AnyCall r h s k
        ∧ (Segments.sizes r.options.initialSize r.options.maxSize)[0]? = some 107374182400
        ∧ (107374182400 : UInt64).toNat / (onlyVast.effectivePageSize.toNat + 24) = 2 ^ 32
        ∧ (r.insertRow 1 h).1
          = some (.error (.outOfMemory "r" 107374182400 107374182400 0))
        ∧ s = (r.insertRow 1 h).2.1 ∧ s.store.memory.handedOutOf 0 = 0 := by
  have htest : activates ⟨0, 0⟩ onlyVast (Host.fresh .scratch fun _ => 0) "r" (fun r h =>
      decide ((Segments.sizes r.options.initialSize r.options.maxSize)[0]? = some 107374182400)
        && decide ((r.insertRow 1 h).1
          = some (.error (.outOfMemory "r" 107374182400 107374182400 0)))
        && decide ((r.insertRow 1 h).2.1.store.memory.handedOutOf 0 = 0)) = true := by
    decide +kernel
  obtain ⟨g, h, r, hok, hlookup, hfound⟩ := activates_eq_true htest
  simp only [Bool.and_eq_true, decide_eq_true_eq] at hfound
  obtain ⟨⟨hchunk, hinsert⟩, hnone⟩ := hfound
  exact ⟨(activate_ok hok).1, by decide, g, h, r, _, _, hok, hlookup,
    Region.Run.call (.insert 1) .first trivial, hchunk, by decide, hinsert, rfl, hnone⟩

end Registry
end PageRegions
