import Mathlib.Data.List.Perm.Subperm
import PageRegions.Proofs.Memory.Rising
import PageRegions.Proofs.Region.Exhaustion
import PageRegions.Proofs.Region.Lasting
import PageRegions.Proofs.Region.Losses

/-!
# What clients cannot take back

Clients may ask for anything: rows that do not fit, the removal of rows that are not there, touches
of pages that were never heard of. Three things stay as they are. The free list has no page that
memory may still hand out, so no page has two places in it (`Grounded`), and its pool is shorter than
a word can count. The count of loaded pages does not fall. And the pool grows with each page that is
emptied or evicted, and loses one page at most where a row is placed (`Advanced`).

This is less than what the accounts of rows need (`Accounts`), and so it holds of more calls.
-/

set_option autoImplicit false

namespace PageRegions

/-! ## The pages of a free list -/

namespace FreeList

/-- Whether a list has a page, with rows or without. -/
def Has (f : FreeList) (page : PageId) : Prop := f.holds page = true ∨ page ∈ f.pool

variable {f : FreeList} {p : DataPage} {page x : PageId} {row : UInt32}

theorem Has.of_close (hp : f.page? page = some p) (hx : (f.close p).Has x) : f.Has x := by
  unfold Has at hx
  rw [close_holds, close_pool, page?_id hp, List.mem_cons, Bool.and_eq_true] at hx
  rcases hx with ⟨-, hx⟩ | rfl | hx
  · exact Or.inl hx
  · exact Or.inl (holds_iff.mpr ⟨p, hp⟩)
  · exact Or.inr hx

theorem Has.of_lessen (hp : f.page? page = some p) (hx : (f.lessen p row).Has x) : f.Has x := by
  unfold Has at hx
  rw [lessen_holds hp, lessen_pool] at hx
  exact hx

theorem Has.of_addRow (hp : f.page? page = some p) (hx : (f.addRow page row).Has x) : f.Has x := by
  unfold Has at hx
  rw [addRow_holds hp, addRow_pool] at hx
  exact hx

theorem Has.of_openPage (hx : (f.openPage page row).Has x) : x = page ∨ f.Has x := by
  unfold Has at hx
  rw [openPage_holds, openPage_pool, Bool.or_eq_true, decide_eq_true_iff, or_assoc] at hx
  exact hx

end FreeList

namespace Region

/-! ## Regions that clients use -/

/-- The free list has no page twice, and none that memory may hand out. -/
structure Grounded (r : Region) : Prop where
  list : r.freeList.Inv
  memory : r.store.memory.Tallied
  passed : ∀ page, r.freeList.Has page → r.store.memory.Passed page
  coherent : r.tracker.Coherent

variable {r s t : Region}

/-- There are fewer pages than a word can count. -/
theorem Grounded.pool_lt (hr : r.Grounded) : r.freeList.pool.length < 2 ^ 64 := by
  have hbelow : ∀ page ∈ r.freeList.pool, page.toNat < 16 * 2 ^ 32 := by
    intro page hpage
    have hsegments := hr.memory.onward.few
    have hindex := page.index.toNat_lt
    have hsegment : page.segment.toNat < 16 := by
      unfold Segments.most at hsegments
      rcases hr.passed page (Or.inr hpage) with hlt | ⟨heq, -⟩
      · omega
      · omega
    rw [PageId.toNat, Nat.shiftLeft_eq]
    omega
  have hnodup : (r.freeList.pool.map PageId.toNat).Nodup :=
    hr.list.pool_nodup.map fun _ _ => PageId.toNat_inj
  have hsubset : r.freeList.pool.map PageId.toNat ⊆ List.range (16 * 2 ^ 32) := by
    intro n hn
    obtain ⟨page, hpage, rfl⟩ := List.mem_map.mp hn
    exact List.mem_range.mpr (hbelow page hpage)
  have hlength := (List.subperm_of_subset hnodup hsubset).length_le
  rw [List.length_map, List.length_range] at hlength
  omega

/-- So the word for the length of the pool is right. -/
theorem Grounded.pooled_eq (hr : r.Grounded) : r.pooled.toNat = r.freeList.pool.length :=
  (UInt64.toNat_ofNat').trans (Nat.mod_eq_of_lt hr.pool_lt)

/-- A region `s` that calls made of `r`, with up to `spent` pages less in its pool. -/
structure Advanced (r s : Region) (spent : Nat) : Prop where
  grounded : s.Grounded
  options : s.options = r.options
  persistence : s.persistence = r.persistence
  sizes : PageMemory.SameSizes r.store.memory s.store.memory
  loaded_le : r.loaded.toNat ≤ s.loaded.toNat
  pool_le : r.freeList.pool.length ≤ s.freeList.pool.length + spent

theorem Advanced.refl (hr : r.Grounded) : Advanced r r 0 :=
  ⟨hr, rfl, rfl, .refl _, Nat.le_refl _, Nat.le_refl _⟩

theorem Advanced.trans {spent : Nat} (h : Advanced r s 0) (h' : Advanced s t spent) :
    Advanced r t spent where
  grounded := h'.grounded
  options := h'.options.trans h.options
  persistence := h'.persistence.trans h.persistence
  sizes := h.sizes.trans h'.sizes
  loaded_le := h.loaded_le.trans h'.loaded_le
  pool_le := h.pool_le.trans h'.pool_le

/-- A region that is above its watermark stays above it. -/
theorem Advanced.isOver {spent : Nat} (h : Advanced r s spent) (hover : r.isOver = true) :
    s.isOver = true := by
  have hmark : s.watermark = r.watermark := by
    unfold watermark PageMemory.systemPageSize
    rw [h.options, h.sizes.pageSize]
  unfold Region.isOver at hover ⊢
  rw [hmark]
  exact Binary64.less_ofNat_mono h.loaded_le hover

/-! ## One call -/

/-- Another free list, that has no page more. -/
theorem Grounded.advance (hr : r.Grounded) {f : FreeList} (tracker : Tracker)
    (metrics : RegionMetrics) (hlist : f.Inv) (hhas : ∀ x, f.Has x → r.freeList.Has x)
    (hcoherent : tracker.Coherent) {spent : Nat}
    (hpool : r.freeList.pool.length ≤ f.pool.length + spent) :
    Advanced r
      { r with
        freeList := f
        tracker := tracker
        store := { r.store with metrics := metrics } } spent where
  grounded := ⟨hlist, hr.memory, fun x hx => hr.passed x (hhas x hx), hcoherent⟩
  options := rfl
  persistence := rfl
  sizes := .refl _
  loaded_le := Nat.le_refl _
  pool_le := hpool

theorem Grounded.evictPage (hr : r.Grounded) (h : Host) : Advanced r (r.evictPage h).2.1 0 := by
  by_cases hidle : r.tracker.kind = .idle
  · rw [evictPage_of_idle hidle]
    exact .refl hr
  have hev := evictPage_eviction hr.coherent hidle h
  generalize r.evictPage h = out at hev
  cases hev with
  | evicted victim _ t _ holds _ _ coherent =>
    obtain ⟨p, hp, -, hevict⟩ := FreeList.evict_of_holds holds
    rw [hevict]
    refine hr.advance t _ (hr.list.close hp) (fun x hx => hx.of_close hp) coherent ?_
    rw [FreeList.close_pool]
    exact Nat.le_succ _
  | refused _ _ t _ _ _ _ _ coherent =>
    exact hr.advance t r.store.metrics hr.list (fun _ hx => hx) coherent (Nat.le_refl _)

theorem Grounded.ensureFreeSpace (hr : r.Grounded) (h : Host) :
    Advanced r (r.ensureFreeSpace h).2.1 0 :=
  ensureFreeSpace_keeps (I := fun s _ => Advanced r s 0)
    (fun _ h hs => hs.trans (hs.grounded.evictPage h)) (fun _ _ _ hs => hs) (.refl hr)

theorem Grounded.touch (hr : r.Grounded) (page : PageId) (h : Host) :
    Advanced r (r.touch page h) 0 :=
  hr.advance (r.tracker.touch page h.now) r.store.metrics hr.list (fun _ hx => hx)
    (hr.coherent.touch page h.now) (Nat.le_refl _)

theorem Grounded.removeRow (hr : r.Grounded) (page : PageId) (row : UInt32) :
    Advanced r (r.removeRow page row).2 0 := by
  have hrem := r.freeList.removeRow_removal page row
  unfold Region.removeRow
  generalize r.freeList.removeRow page row = out at hrem
  cases hrem with
  | refused fault => exact .refl hr
  | emptied p found _ _ =>
    refine hr.advance (r.tracker.forget (r.freeList.close p) page) r.store.metrics
      (hr.list.close found) (fun x hx => hx.of_close found) (hr.coherent.forget _ page).1 ?_
    rw [FreeList.close_pool]
    exact Nat.le_succ _
  | kept p found fits _ =>
    refine hr.advance r.tracker r.store.metrics (hr.list.lessen found fits)
      (fun x hx => hx.of_lessen found) hr.coherent ?_
    rw [FreeList.lessen_pool, Nat.add_zero]

/-- What memory hands out the free list does not have. -/
theorem Grounded.allocate_new (hr : r.Grounded) {h : Host} {page : PageId}
    {t : MeteredMemory × Host} (hallocated : r.store.allocate h = (.ok page, t)) :
    r.freeList.page? page = none := by
  obtain ⟨metrics, hmetered⟩ := metered_allocate r.store h
  have hok : (r.store.memory.allocate h).1 = .ok page := by
    rw [hmetered] at hallocated
    exact congrArg Prod.fst hallocated
  have hnew := ((hr.memory.onward.allocate h).2 page hok).1
  refine Option.eq_none_iff_forall_ne_some.mpr fun p hp => hnew ?_
  exact hr.passed page (Or.inl (FreeList.holds_iff.mpr ⟨p, hp⟩))

/-- Placing a row takes a page from the pool, or one from memory if the pool is empty. -/
theorem Grounded.placeRow (hr : r.Grounded) (row : UInt32) (h : Host) :
    Advanced r (r.placeRow row h).2.1 1 := by
  have hcoherent := placeRow_coherent hr.coherent row h
  have hins := FreeList.insertRow_insertion
    (fun s : MeteredMemory × Host => s.1.allocate s.2) r.freeList row (r.store, h)
  have hlist := hr.list.insertRow hins fun _ _ hallocated => hr.allocate_new hallocated
  obtain ⟨metrics, hmetered⟩ := metered_allocate r.store h
  obtain ⟨hmoved, hfound⟩ := hr.memory.onward.allocate h
  obtain ⟨htallied, hloaded⟩ := hr.memory.allocate h
  have hsizes := r.store.memory.allocate_sameSizes h
  unfold Region.placeRow at hcoherent ⊢
  generalize r.freeList.insertRow _ row (r.store, h) = out at hins hlist hcoherent
  generalize r.store.memory.allocate h = allocation at hmetered hmoved hfound htallied hloaded hsizes
  obtain ⟨result, m, k⟩ := allocation
  cases hins with
  | refused =>
    exact hr.advance r.tracker r.store.metrics hlist (fun _ hx => hx) hcoherent (Nat.le_succ _)
  | added page _ fits found =>
    obtain ⟨p, hp, -⟩ := FreeList.findRoom?_fits hr.list fits found
    refine hr.advance _ r.store.metrics hlist (fun x hx => hx.of_addRow hp) hcoherent ?_
    rw [FreeList.addRow_pool]
    exact Nat.le_succ _
  | reopened page g _ _ _ popped =>
    obtain ⟨-, -, hpool, hpages, -⟩ := hr.list.popPool popped
    refine hr.advance _ r.store.metrics hlist (fun x hx => ?_) hcoherent ?_
    · rcases hx.of_openPage with rfl | hholds | hmem
      · exact Or.inr (hpool ▸ List.mem_cons_self)
      · rw [FreeList.holds, FreeList.page?_congr hpages] at hholds
        exact Or.inl hholds
      · exact Or.inr (hpool ▸ List.mem_cons_of_mem _ hmem)
    · rw [FreeList.openPage_pool, hpool, List.length_cons]
  | opened page t _ _ _ empty allocated =>
    have hasked : r.store.allocate h = (.ok page, t) := allocated
    rw [hmetered] at hasked
    cases hasked
    refine ⟨⟨hlist, htallied, fun x hx => ?_, hcoherent⟩, rfl, rfl, hsizes, hloaded, ?_⟩
    · rcases hx.of_openPage with rfl | hx
      · exact (hfound x rfl).2
      · exact hmoved.passed x (hr.passed x hx)
    · rw [empty]
      exact Nat.zero_le _
  | unplaced fault t _ _ _ empty failed =>
    have hasked : r.store.allocate h = (.error fault, t) := failed
    rw [hmetered] at hasked
    cases hasked
    exact ⟨⟨hlist, htallied, fun x hx => hmoved.passed x (hr.passed x hx), hcoherent⟩, rfl, rfl,
      hsizes, hloaded, Nat.le_succ _⟩

/-- Of a row that is refused nothing is placed. -/
theorem Grounded.insertRow (hr : r.Grounded) (row : UInt32) (h : Host) :
    Advanced r (r.insertRow row h).2.1 1 := by
  have hroom := hr.ensureFreeSpace h
  have hmore : Advanced r (r.ensureFreeSpace h).2.1 1 :=
    { hroom with pool_le := hroom.pool_le.trans (Nat.le_succ _) }
  unfold Region.insertRow
  generalize r.ensureFreeSpace h = out at hroom hmore
  obtain ⟨_ | _ | _, s, k⟩ := out
  · exact hmore
  · exact hmore
  · exact hroom.trans (hroom.grounded.placeRow row k)

/-- **What one call of a client preserves.** -/
theorem Grounded.perform (hr : r.Grounded) (h : Host) {c : RegionCall} (hc : ClientCall r c) :
    ∃ spent, Advanced r (r.perform h c).2.1 spent := by
  cases hc with
  | insert row => exact ⟨1, hr.insertRow row h⟩
  | remove page row => exact ⟨0, hr.removeRow page row⟩
  | ensure => exact ⟨0, hr.ensureFreeSpace h⟩
  | touch page => exact ⟨0, hr.touch page h⟩

/-! ## All calls -/

theorem Unused.unread (hr : Unused r) : r.store.memory.Unread := by
  induction hr with
  | fresh now o pageSize _ _ _ backing => exact PageMemory.unread_fresh o pageSize backing
  | @start h r _ ih =>
    rw [(r.start_parts h).2.1]
    exact ih.start h
  | @stop h r _ ih =>
    rcases (r.stop_parts h).2 with hsame | hstopped
    · rw [hsame]
      exact ih
    · rw [hstopped]
      exact ih.stop h

theorem Unused.grounded (hr : Unused r) : r.Grounded := by
  have haccounts := hr.accounts
  exact ⟨haccounts.list, hr.unread.tallied haccounts.memory, haccounts.passed, haccounts.coherent⟩

/-- **What every run of clients preserves.** -/
theorem Run.grounded {first : Region} {host h : Host} (hfirst : first.Grounded)
    (hrun : Run ClientCall first host r h) : r.Grounded := by
  refine hrun.keeps (I := fun r _ => r.Grounded) ?_ (fun _ _ _ hr _ => hr) hfirst
  intro r h c hr hc
  obtain ⟨_, hadvanced⟩ := hr.perform h hc
  exact hadvanced.grounded

end Region
end PageRegions
