import PageRegions.Proofs.Region.Advancing
import PageRegions.Proofs.Region.Returning

/-!
# No thrashing once the pool was filled

A region above its watermark makes room until its pool is as full as it asks for, and evicting does
not bring the count of loaded pages down. So it stays above the watermark for good, and all that a
row can cost is one page of the pool. `Topped` says so, and whatever clients ask for keeps it: where
room cannot be made no row is placed, either, and so nothing is taken from the pool.

A pool that lacks one page at most is filled by one eviction. So once a region was filled up, each
row costs one eviction at most (`evicts_one_page`), and rows are not lost in bulk again.
-/

set_option autoImplicit false

namespace PageRegions
namespace Region

variable {first r s : Region} {host h k : Host}

/-! ## Losses and the pool -/

/-- What is lost goes to the pool. -/
theorem Grounded.pool_evictPage (hr : r.Grounded) (h : Host) :
    (r.evictPage h).2.1.freeList.pool.length = r.freeList.pool.length + (r.losing h).length := by
  by_cases hidle : r.tracker.kind = .idle
  · have hnone : r.losing h = [] := by
      unfold losing
      rw [Tracker.eq_idle hidle]
      rfl
    rw [evictPage_of_idle hidle, hnone]
    rfl
  · obtain ⟨result, t, f, drawn, heq, -, -, -, hev⟩ := hr.coherent.evict hidle r.freeList h
    unfold Region.evictPage losing
    rw [heq]
    cases hev with
    | evicted victim _ _ _ holds dropped _ _ =>
      obtain ⟨p, -, -, hevict⟩ := FreeList.evict_of_holds holds
      have hf : f = r.freeList.close p := by
        have hdropped : r.freeList.evict victim = (.ok (), f) := dropped
        rw [hevict] at hdropped
        exact (congrArg Prod.snd hdropped).symm
      rw [hf]
      exact congrArg List.length FreeList.close_pool
    | refused => rfl

/-- What is known after some evictions of a run, with the losses so far. -/
structure Refilling (r : Region) (s : (Region × Host) × List Loss) : Prop where
  advanced : Advanced r s.1.1 0
  pool : s.1.1.freeList.pool.length = r.freeList.pool.length + s.2.length
  lacked : s.2 = [] ∨ r.freeList.pool.length + s.2.length ≤ r.options.poolTarget.toNat

/-- One eviction of the run. It is made only if the pool lacks a page. -/
theorem Refilling.evict {s : (Region × Host) × List Loss} (hs : Refilling r s)
    (hshort : loggedSupply.isShort r.watermark r.options.poolTarget s = true) :
    Refilling r (loggedSupply.evict s).2 := by
  obtain ⟨⟨q, k⟩, log⟩ := s
  have hadvanced : Advanced r q 0 := hs.advanced
  have hpool : q.freeList.pool.length = r.freeList.pool.length + log.length := hs.pool
  have hlack : q.pooled < r.options.poolTarget := Supply.pooled_lt_of_isShort hshort
  rw [UInt64.lt_iff_toNat_lt, hadvanced.grounded.pooled_eq, hpool] at hlack
  have hevicted := hadvanced.grounded.pool_evictPage k
  have hone : (q.losing k).length ≤ 1 := by
    unfold losing
    split
    · exact Nat.le_refl _
    · exact Nat.zero_le _
  refine ⟨hadvanced.trans (hadvanced.grounded.evictPage k), ?_, Or.inr ?_⟩
  · change (q.evictPage k).2.1.freeList.pool.length = _ + (log ++ q.losing k).length
    rw [hevicted, hpool, List.length_append, Nat.add_assoc]
  · change _ + (log ++ q.losing k).length ≤ _
    rw [List.length_append]
    omega

/-- **No more is lost than the pool lacks.** -/
theorem Grounded.losses_lacked (hr : r.Grounded) (h : Host) :
    r.losses h = [] ∨ r.freeList.pool.length + (r.losses h).length ≤ r.options.poolTarget.toNat := by
  unfold losses
  split
  · exact (Supply.makeRoom_keeps_short (I := Refilling r) (fun s hs hshort => hs.evict hshort)
      ⟨.refl hr, rfl, Or.inl rfl⟩).lacked
  · exact Or.inl rfl

/-! ## Regions whose pool was filled -/

/-- A region above its watermark, with a pool that lacks one page at most. -/
structure Topped (r : Region) : Prop where
  grounded : r.Grounded
  crowded : r.isOver = true
  enough : r.options.poolTarget.toNat ≤ r.freeList.pool.length + 1
  evicts : r.options.evicts r.persistence = true

theorem Topped.advance (hr : r.Topped) (h : Advanced r s 0) : s.Topped where
  grounded := h.grounded
  crowded := h.isOver hr.crowded
  enough := by
    rw [h.options]
    exact hr.enough.trans (Nat.add_le_add_right h.pool_le 1)
  evicts := by
    rw [h.options, h.persistence]
    exact hr.evicts

/-- Where room was made above the watermark, one row is placed with a full pool. -/
theorem Grounded.topped_insertRow (hr : r.Grounded) (hover : r.isOver = true)
    (hevicts : r.options.evicts r.persistence = true)
    (hok : (r.ensureFreeSpace h).1 = some (.ok ())) (row : UInt32) :
    (r.insertRow row h).2.1.Topped := by
  have hroom := hr.ensureFreeSpace h
  rcases hout : r.ensureFreeSpace h with ⟨result, s, k⟩
  rw [hout] at hok hroom
  obtain rfl : result = some (.ok ()) := hok
  replace hroom : Advanced r s 0 := hroom
  have hfull : s.options.poolTarget ≤ s.pooled := by
    rcases enough_of_ensureFreeSpace_ok hevicts hout with hunder | hfull
    · rw [hroom.isOver hover] at hunder
      cases hunder
    · exact hfull
  rw [UInt64.le_iff_toNat_le, hroom.grounded.pooled_eq] at hfull
  have hplace := hroom.grounded.placeRow row k
  unfold Region.insertRow
  rw [hout]
  exact {
    grounded := hplace.grounded
    crowded := hplace.isOver (hroom.isOver hover)
    enough := by
      rw [hplace.options]
      exact hfull.trans hplace.pool_le
    evicts := by
      rw [hplace.options, hplace.persistence, hroom.options, hroom.persistence]
      exact hevicts }

/-- **What one call preserves.** A row is placed only where room was made, and then the pool is full
before it. -/
theorem Topped.perform (hr : r.Topped) (h : Host) {c : RegionCall} (hc : ClientCall r c) :
    (r.perform h c).2.1.Topped := by
  cases hc with
  | remove page row => exact hr.advance (hr.grounded.removeRow page row)
  | ensure => exact hr.advance (hr.grounded.ensureFreeSpace h)
  | touch page => exact hr.advance (hr.grounded.touch page h)
  | insert row =>
    show (r.insertRow row h).2.1.Topped
    by_cases hok : (r.ensureFreeSpace h).1 = some (.ok ())
    · exact hr.grounded.topped_insertRow hr.crowded hr.evicts hok row
    · have hroom := hr.advance (hr.grounded.ensureFreeSpace h)
      unfold Region.insertRow
      generalize r.ensureFreeSpace h = out at hok hroom
      obtain ⟨_ | _ | _, s, k⟩ := out
      · exact hroom
      · exact hroom
      · exact absurd rfl hok

/-- **What every run preserves.** -/
theorem Run.topped (hfirst : first.Topped) (hrun : Run ClientCall first host r h) : r.Topped :=
  hrun.keeps (I := fun r _ => r.Topped) (fun _ h _ hr hc => hr.perform h hc)
    (fun _ _ _ hr _ => hr) hfirst

/-- One eviction fills the pool. -/
theorem Topped.losses_length_le (hr : r.Topped) (h : Host) : (r.losses h).length ≤ 1 := by
  have henough := hr.enough
  rcases hr.grounded.losses_lacked h with hnone | hlacked
  · rw [hnone]
    exact Nat.zero_le _
  · omega

theorem insertRow_ne_none (hcoherent : r.tracker.Coherent) (hkind : r.tracker.kind ≠ .idle)
    (row : UInt32) (h : Host) : (r.insertRow row h).1 ≠ none := by
  have hsome := (returns_of_kind hcoherent hkind h).some
  unfold insertRow
  generalize r.ensureFreeSpace h = out at hsome
  obtain ⟨_ | _ | _, s, k⟩ := out
  · exact absurd rfl hsome
  · exact Option.some_ne_none _
  · exact Option.some_ne_none _

/-- **No thrashing.** If a row was admitted by a region above its watermark, then for each row after
it, whatever clients ask for in between, making room ends, and loses one page at most. -/
theorem evicts_one_page (hunused : Unused first) (hkind : first.tracker.kind ≠ .idle)
    (hrun : Run ClientCall first host r h) (row : UInt32) (hover : r.isOver = true)
    (hok : (r.ensureFreeSpace h).1 = some (.ok ()))
    (hlater : Run ClientCall (r.insertRow row h).2.1 (r.insertRow row h).2.2 s k) (next : UInt32) :
    (s.insertRow next k).1 ≠ none ∧ (s.lossesOf k (.insert next)).length ≤ 1 := by
  have hgrounded := hrun.grounded hunused.grounded
  have hfilled := (hrun.lasting hunused.reached.coherent).insertRow row h
  have hlasting := hlater.lasting hfilled.coherent
  have hkinds : s.tracker.kind ≠ .idle := by
    rw [hlasting.kind, hfilled.kind]
    exact hkind
  refine ⟨insertRow_ne_none hlasting.coherent hkinds next k, ?_⟩
  change (s.losses k).length ≤ 1
  cases hevicts : r.options.evicts r.persistence with
  | true =>
    have htopped := hlater.topped (hgrounded.topped_insertRow hover hevicts hok row)
    exact htopped.losses_length_le k
  | false =>
    have hplace := hgrounded.insertRow row h
    unfold losses
    rw [if_neg]
    · exact Nat.zero_le _
    · rw [hlasting.options, hlasting.persistence, hplace.options, hplace.persistence, hevicts]
      exact Bool.false_ne_true

/-- Two full pages, above a watermark of one: the third row is admitted by evicting a page, and so is
the fourth. -/
theorem evicts_one_page_of_two :
    ∃ (first r s : Region) (host h k : Host), Unused first ∧ first.tracker.kind ≠ .idle
      ∧ Run ClientCall first host r h ∧ r.isOver = true
      ∧ (r.ensureFreeSpace h).1 = some (.ok ())
      ∧ Run ClientCall (r.insertRow 4194280 h).2.1 (r.insertRow 4194280 h).2.2 s k
      ∧ victims (s.lossesOf k (.insert 4194280)) = [⟨0, 1⟩]
      ∧ (s.insertRow 4194280 k).1 ≠ none ∧ (s.lossesOf k (.insert 4194280)).length ≤ 1 := by
  let half := Binary64.ofRatio false 1 2
  let started := (fresh 0 (tenMiB half) 4194280 false false .fairQueue .anonymous false).start
    (Host.fresh ⟨[], []⟩ fun _ => 0)
  have hunused : Unused started.2.1 := .start _ (.fresh ..)
  have hkind : started.2.1.tracker.kind ≠ .idle := by decide +kernel
  have hfirst : Run ClientCall started.2.1 started.2.2 started.2.1 started.2.2 := .first
  have hrun := (hfirst.call (.insert 4194280) (.insert 4194280)).call (.insert 4194280)
    (.insert 4194280)
  have hlast := evicts_one_page hunused hkind hrun 4194280 (by decide +kernel) (by decide +kernel)
    .first 4194280
  exact ⟨_, _, _, _, _, _, hunused, hkind, hrun, by decide +kernel, by decide +kernel, .first,
    by decide +kernel, hlast⟩

end Region
end PageRegions
