import PageRegions.Proofs.Options.SparePages
import PageRegions.Proofs.Region.Consistent

/-!
# When a region runs out of memory

Making room is meant to keep a region from running out: before its last page is handed out, pages
are evicted, and rows go to those. Whether it does hangs on whether there are pages to spare
(`RegionOptions.sparesPages`). If there are, memory is never used up, whatever clients do. If there
are none, no room is ever made, and as many full pages as there are use up the memory.

The first half is about calls of every kind that clients make, and asks less of a region than
`Region.Inv`: pages without rows may be tracked, and it does not matter which those are. The second
is about one sequence of calls.
-/

set_option autoImplicit false

namespace PageRegions

/-- Whether a fault says that all pages of a region are handed out. -/
def Fault.isOutOfMemory : Fault → Bool
  | .outOfMemory .. => true
  | _ => false

theorem Fault.isOutOfMemory_of_deniesVictim {fault : Fault} (h : fault.deniesVictim = true) :
    fault.isOutOfMemory = false := by
  cases fault <;> cases h <;> rfl

theorem Fault.isOutOfMemory_of_isMapping {fault : Fault} (h : fault.isMapping = true) :
    fault.isOutOfMemory = false := by
  cases fault <;> cases h <;> rfl

/-- What clients ask a region for, whether the pages they touch hold rows or not. -/
inductive ClientCall (r : Region) : RegionCall → Prop
  | insert (row : UInt32) : ClientCall r (.insert row)
  | remove (page : PageId) (row : UInt32) : ClientCall r (.remove page row)
  | ensure : ClientCall r .ensure
  | touch (page : PageId) : ClientCall r (.touch page)

namespace Region

/-! ## Page memory -/

/-- What all of these calls keep of page memory, seen from the region `first` before them. Trackers
have no part in it. -/
structure Stored (first r : Region) (h : Host) : Prop where
  memory : r.store.memory.Inv h
  further : PageMemory.Further first.store.memory r.store.memory

variable {first r : Region} {h : Host}

theorem Stored.congr_host (hr : Stored first r h) {k : Host}
    (hsame : ∀ s ∈ r.store.memory.segments, k.block s.block = h.block s.block) :
    Stored first r k :=
  { hr with memory := hr.memory.congr_host hsame }

theorem Stored.evictPage (hr : Stored first r h) :
    Stored first (r.evictPage h).2.1 (r.evictPage h).2.2 := by
  obtain ⟨-, hmemory, -⟩ := r.evictPage_parts h
  obtain ⟨drawn, hhost⟩ := r.evictPage_host h
  rw [hhost]
  refine ⟨?_, ?_⟩
  · rw [hmemory]
    exact hr.memory.congr_host fun _ _ => rfl
  · rw [hmemory]
    exact hr.further

theorem Stored.ensureFreeSpace (hr : Stored first r h) :
    Stored first (r.ensureFreeSpace h).2.1 (r.ensureFreeSpace h).2.2 :=
  ensureFreeSpace_keeps (I := Stored first) (fun _ _ hr => hr.evictPage)
    (fun _ _ _ hr => hr.congr_host fun _ _ => rfl) hr

theorem Stored.placeRow (hr : Stored first r h) (row : UInt32) :
    Stored first (r.placeRow row h).2.1 (r.placeRow row h).2.2 := by
  have hplace := placeRow_placement hr.memory row
  generalize r.placeRow row h = out at hplace
  cases hplace with
  | refused | added | reopened => exact ⟨hr.memory, hr.further⟩
  | opened _ _ _ _ _ _ _ _ _ inv further => exact ⟨inv, hr.further.trans further⟩
  | unplaced _ _ _ _ _ _ inv further => exact ⟨inv, hr.further.trans further⟩

theorem Stored.insertRow (hr : Stored first r h) (row : UInt32) :
    Stored first (r.insertRow row h).2.1 (r.insertRow row h).2.2 :=
  insertRow_keeps (I := Stored first) (fun _ _ hr => hr.placeRow row) hr.ensureFreeSpace

theorem Stored.removeRow (hr : Stored first r h) (page : PageId) (row : UInt32) :
    Stored first (r.removeRow page row).2 h := by
  unfold Region.removeRow
  rcases r.freeList.removeRow page row with ⟨_ | emptied, f⟩ <;> exact ⟨hr.memory, hr.further⟩

theorem Stored.perform (hr : Stored first r h) {c : RegionCall} (hc : ClientCall r c) :
    Stored first (r.perform h c).2.1 (r.perform h c).2.2 := by
  cases hc with
  | insert row => exact hr.insertRow row
  | remove page row => exact hr.removeRow page row
  | ensure => exact hr.ensureFreeSpace
  | touch page => exact ⟨hr.memory, hr.further⟩

theorem Stored.run {host : Host} (hfirst : Stored first first host)
    (hrun : Run ClientCall first host r h) : Stored first r h :=
  hrun.keeps (fun _ _ _ hr hc => hr.perform hc) (fun _ _ _ hr hsame => hr.congr_host hsame) hfirst

/-- No more pages are loaded than there are. -/
theorem Stored.loaded_le (hr : Stored first r h) :
    r.loaded.toNat ≤ first.store.memory.total := by
  have hhanded := hr.memory.handedOut_le
  rw [← hr.memory.loaded, hr.further.total] at hhanded
  exact hhanded

/-! ## Pages are counted -/

/-- What all of these calls keep, if the region tracks its pages. -/
structure Counted (first r : Region) (h : Host) : Prop extends Stored first r h where
  coherent : r.tracker.Coherent
  kind : r.tracker.kind ≠ .idle
  options : r.options = first.options
  persistence : r.persistence = first.persistence

theorem Counted.congr_host (hr : Counted first r h) {k : Host}
    (hsame : ∀ s ∈ r.store.memory.segments, k.block s.block = h.block s.block) :
    Counted first r k :=
  { hr with toStored := hr.toStored.congr_host hsame }

theorem Counted.evictPage (hr : Counted first r h) :
    Counted first (r.evictPage h).2.1 (r.evictPage h).2.2 := by
  have hstored := hr.toStored.evictPage
  have hev := evictPage_eviction hr.coherent hr.kind h
  generalize r.evictPage h = out at hstored hev
  cases hev with
  | evicted _ _ t _ _ _ _ coherent _ kind =>
    exact { hr with
      toStored := hstored
      coherent := coherent
      kind := fun he => hr.kind (kind.symm.trans he) }
  | refused _ _ t _ _ _ _ _ coherent _ kind =>
    exact { hr with
      toStored := hstored
      coherent := coherent
      kind := fun he => hr.kind (kind.symm.trans he) }

theorem Counted.ensureFreeSpace (hr : Counted first r h) :
    Counted first (r.ensureFreeSpace h).2.1 (r.ensureFreeSpace h).2.2 :=
  ensureFreeSpace_keeps (I := Counted first) (fun _ _ hr => hr.evictPage)
    (fun _ _ _ hr => hr.congr_host fun _ _ => rfl) hr

/-- Room is only refused for want of a victim. -/
theorem Counted.ensureFreeSpace_error (hr : Counted first r h) {fault : Fault}
    (herror : (r.ensureFreeSpace h).1 = some (.error fault)) : fault.deniesVictim = true := by
  cases hevicts : r.options.evicts r.persistence with
  | false =>
    rw [ensureFreeSpace_of_not_evicts hevicts] at herror
    cases herror
  | true =>
    obtain ⟨notes, heq, -⟩ := ensureFreeSpace_of_evicts hevicts (h := h) rfl
    rw [heq] at herror
    refine Supply.makeRoom_error (I := fun s : Region × Host => Counted first s.1 s.2)
      (P := fun fault => fault.deniesVictim = true) (fun s hs => hs.evictPage)
      (fun s fault hs hfault => ?_) hr herror
    have hev := evictPage_eviction hs.coherent hs.kind s.2
    simp only [supply] at hfault
    generalize s.1.evictPage s.2 = out at hev hfault
    cases hev with
    | evicted => cases hfault
    | refused fault _ _ _ cause =>
      cases hfault
      exact cause

/-- Placing a row touches its page at most. -/
theorem Counted.placeRow (hr : Counted first r h) (row : UInt32) :
    Counted first (r.placeRow row h).2.1 (r.placeRow row h).2.2 := by
  have hstored := hr.toStored.placeRow row
  unfold Region.placeRow at hstored ⊢
  generalize r.freeList.insertRow _ row (r.store, h) = out at hstored ⊢
  obtain ⟨_ | page, f, store, k⟩ := out
  · exact { hr with toStored := hstored }
  · exact { hr with
      toStored := hstored
      coherent := hr.coherent.touch page k.now
      kind := fun he => hr.kind ((Tracker.touch_kind _ _ _).symm.trans he) }

theorem Counted.insertRow (hr : Counted first r h) (row : UInt32) :
    Counted first (r.insertRow row h).2.1 (r.insertRow row h).2.2 :=
  insertRow_keeps (I := Counted first) (fun _ _ hr => hr.placeRow row) hr.ensureFreeSpace

theorem Counted.removeRow (hr : Counted first r h) (page : PageId) (row : UInt32) :
    Counted first (r.removeRow page row).2 h := by
  unfold Region.removeRow
  rcases r.freeList.removeRow page row with ⟨_ | emptied, f⟩
  · exact { hr with memory := hr.memory }
  · cases emptied with
    | false => exact { hr with memory := hr.memory }
    | true =>
      exact { hr with
        memory := hr.memory
        coherent := (hr.coherent.forget f page).1
        kind := fun he => hr.kind ((Tracker.forget_kind _ _ _).symm.trans he) }

/-- **What one call preserves.** -/
theorem Counted.perform (hr : Counted first r h) {c : RegionCall} (hc : ClientCall r c) :
    Counted first (r.perform h c).2.1 (r.perform h c).2.2 := by
  cases hc with
  | insert row => exact hr.insertRow row
  | remove page row => exact hr.removeRow page row
  | ensure => exact hr.ensureFreeSpace
  | touch page =>
    exact { hr with
      coherent := hr.coherent.touch page h.now
      kind := fun he => hr.kind ((Tracker.touch_kind _ _ _).symm.trans he) }

theorem Counted.run {host : Host} (hfirst : Counted first first host)
    (hrun : Run ClientCall first host r h) : Counted first r h :=
  hrun.keeps (fun _ _ _ hr hc => hr.perform hc) (fun _ _ _ hr hsame => hr.congr_host hsame) hfirst

theorem Counted.watermark (hr : Counted first r h) : r.watermark = first.watermark := by
  unfold Region.watermark PageMemory.systemPageSize
  rw [hr.options, hr.further.pageSize]

/-! ## With pages to spare -/

/-- **With pages to spare memory is never used up.** Memory would have to be asked for a page when
all are handed out. But then the region is over its watermark, and room was made before: the pool is
not empty. -/
theorem Counted.insertRow_error (hr : Counted first r h)
    (hevicts : first.options.evicts first.persistence = true) (hpool : 0 < first.options.poolTarget)
    (hspare : first.watermark.less (Binary64.ofNat first.store.memory.total) = true)
    {row : UInt32} {fault : Fault} (herror : (r.insertRow row h).1 = some (.error fault)) :
    fault.isOutOfMemory = false := by
  have hroom := hr.ensureFreeSpace
  unfold Region.insertRow at herror
  rcases hensure : r.ensureFreeSpace h with ⟨_ | denied | _, s, k⟩
  · rw [hensure] at herror
    cases herror
  · rw [hensure] at herror
    cases herror
    exact Fault.isOutOfMemory_of_deniesVictim
      (hr.ensureFreeSpace_error (congrArg Prod.fst hensure))
  · rw [hensure] at herror hroom
    have hfailed : (s.placeRow row k).1 = .error fault := Option.some.inj herror
    have hplace := placeRow_placement hroom.memory row
    generalize s.placeRow row k = out at hplace hfailed
    cases hplace with
    | added | reopened | opened => cases hfailed
    | refused _ size =>
      cases hfailed
      rcases size with ⟨-, rfl⟩ | ⟨-, rfl⟩
      · rfl
      · rfl
    | unplaced _ _ _ _ empty _ _ _ _ why =>
      cases hfailed
      rcases why with ⟨-, rfl⟩ | ⟨-, htotal⟩ | hmapping
      · rfl
      · exfalso
        -- All pages are handed out, which is more than the watermark. Room was made, so the pool has
        -- what it should have; but it is empty, or memory would not have been asked.
        have hover : s.isOver = true := by
          unfold isOver Region.loaded
          rw [hroom.watermark, htotal, hroom.further.total]
          exact hspare
        have hzero : s.pooled = 0 := by
          unfold Region.pooled FreeList.pooled
          rw [empty]
          rfl
        rw [← hr.options, ← hr.persistence] at hevicts
        have henough := enough_of_ensureFreeSpace_ok hevicts hensure
        rw [hover, hroom.options, hzero] at henough
        rcases henough with hnot | hle
        · cases hnot
        · exact absurd hpool (UInt64.not_lt.mpr hle)
      · exact Fault.isOutOfMemory_of_isMapping hmapping

/-! ## Without -/

/-- A region whose `n` pages are all full. -/
structure Filled (first : Region) (page : UInt32) (n : Nat) (r : Region) (h : Host) : Prop where
  inv : r.Inv h
  further : PageMemory.Further first.store.memory r.store.memory
  options : r.options = first.options
  started : r.store.memory.started = true
  capacity : r.freeList.capacity = page
  full : ∀ p ∈ r.freeList.pages, p.used = page
  pool : r.freeList.pool = []
  loaded : r.store.memory.loaded.toNat = n

variable {page : UInt32} {n : Nat}

theorem Filled.le_total (hr : Filled first page n r h) : n ≤ first.store.memory.total := by
  rw [← hr.loaded]
  exact Stored.loaded_le ⟨hr.inv.memory, hr.further⟩

/-- No page has room for another row of that size. -/
theorem Filled.findRoom?_eq_none (hr : Filled first page n r h) (hpage : page ≠ 0) :
    r.freeList.findRoom? page = none := by
  refine Option.eq_none_iff_forall_ne_some.mpr fun id hfound => ?_
  obtain ⟨p, hp, hroom⟩ := FreeList.findRoom?_fits hr.inv.list
    (by rw [hr.capacity]; exact UInt32.le_refl page) hfound
  have hused := hr.full p (FreeList.mem_of_page? hp)
  unfold FreeList.room at hroom
  rw [hr.capacity, hused, UInt32.sub_self] at hroom
  exact hpage (UInt32.le_zero_iff.mp hroom)

theorem insertRow_of_enough (henough : r.isOver = false ∨ r.options.poolTarget ≤ r.pooled)
    (row : UInt32) : r.insertRow row h = (some (r.placeRow row h).1, (r.placeRow row h).2) := by
  unfold Region.insertRow
  rw [ensureFreeSpace_of_enough henough]

/-- Another full page is opened, or there is none and no segment can be mapped. -/
theorem Filled.insertRow (hr : Filled first page n r h) (hpage : page ≠ 0)
    (hlow : first.watermark.less (Binary64.ofNat n) = false) :
    (∃ id, (r.insertRow page h).1 = some (.ok id)
        ∧ Filled first page (n + 1) (r.insertRow page h).2.1 (r.insertRow page h).2.2)
      ∨ ∃ fault, (r.insertRow page h).1 = some (.error fault)
        ∧ (fault.isOutOfMemory = true ∨ fault.isMapping = true) := by
  have hunder : r.isOver = false := by
    unfold isOver Region.loaded Region.watermark PageMemory.systemPageSize
    rw [hr.loaded, hr.options, hr.further.pageSize]
    exact hlow
  have hinv := hr.inv.placeRow page
  have hplace := placeRow_placement hr.inv.memory page
  rw [insertRow_of_enough (Or.inl hunder)]
  generalize r.placeRow page h = out at hinv hplace
  cases hplace with
  | refused _ size =>
    exfalso
    rw [hr.capacity] at size
    rcases size with ⟨hzero, -⟩ | ⟨hlt, -⟩
    · exact hpage hzero
    · exact UInt32.lt_irrefl page hlt
  | added _ _ found =>
    rw [hr.findRoom?_eq_none hpage] at found
    cases found
  | reopened _ _ _ popped =>
    rw [FreeList.popPool_none_iff.mpr hr.pool] at popped
    cases popped
  | opened id m metrics k _ _ _ _ _ _ further loaded =>
    refine Or.inl ⟨id, rfl, {
      inv := hinv
      further := hr.further.trans further
      options := hr.options
      started := further.started.trans hr.started
      capacity := FreeList.openPage_capacity.trans hr.capacity
      full := fun p hp => ?_
      pool := FreeList.openPage_pool.trans hr.pool
      loaded := by rw [← hr.loaded]; exact loaded }⟩
    have hpages : p ∈ (r.freeList.openPage id page).pages := hp
    rw [FreeList.openPage_pages, List.mem_cons] at hpages
    rcases hpages with rfl | hold
    · rfl
    · exact hr.full p (List.mem_filter.mp hold).1
  | unplaced fault _ _ _ _ _ _ _ _ why =>
    refine Or.inr ⟨fault, rfl, ?_⟩
    rcases why with ⟨hnot, -⟩ | ⟨rfl, -⟩ | hmapping
    · rw [hr.started] at hnot
      cases hnot
    · exact Or.inl rfl
    · exact Or.inr hmapping

/-- Filling page after page comes to an end. The induction is on how many are to come. -/
theorem Filled.insertRows_error (more : Nat) (hr : Filled first page n r h) (hpage : page ≠ 0)
    (hsum : n + more = first.store.memory.total + 1)
    (hlow : first.watermark.less (Binary64.ofNat first.store.memory.total) = false) :
    ∃ fault, (r.insertRows page more h).1 = some (.error fault)
      ∧ (fault.isOutOfMemory = true ∨ fault.isMapping = true) := by
  have hle := hr.le_total
  induction more generalizing n r h with
  | zero => omega
  | succ more ih =>
    -- Not even all pages are above the watermark, so `n` of them are not, and no room is made.
    have hstep : first.watermark.less (Binary64.ofNat n) = false := by
      rw [Bool.eq_false_iff] at hlow ⊢
      exact fun hless => hlow (Binary64.less_ofNat_mono hle hless)
    unfold Region.insertRows
    rcases hr.insertRow hpage hstep with ⟨id, hok, hfilled⟩ | ⟨fault, herror, hwhy⟩
    · generalize r.insertRow page h = out at hok hfilled
      obtain ⟨result, s, k⟩ := out
      cases hok
      exact ih hfilled (by omega) hfilled.le_total
    · generalize r.insertRow page h = out at herror
      obtain ⟨result, s, k⟩ := out
      cases herror
      exact ⟨fault, rfl, hwhy⟩

/-! ## From the start on -/

/-- A region that was just started with these settings, on whatever host. -/
structure JustStarted (o : RegionOptions) (page : UInt32) (persistence : Bool) (r : Region) :
    Prop where
  inv : ∀ h, r.Inv h
  options : r.options = o
  persistence : r.persistence = persistence
  started : r.store.memory.started = true
  pageSize : r.store.memory.pageSize = page
  chunks : r.store.memory.provider.chunks = Segments.sizes o.initialSize o.maxSize
  freeList : r.freeList = FreeList.fresh o.name page

theorem start_justStarted {now : UInt64} {o : RegionOptions} {isDefault persistence : Bool}
    {kind : TrackerKind} {backing : Backing} {hasDirectory : Bool} (hkind : kind ≠ .idle)
    (hsize : page.toNat + 24 < 2 ^ 32) {k : Host}
    (hstart : (fresh now o page isDefault persistence kind backing hasDirectory).start h
      = (.ok (), r, k)) : JustStarted o page persistence r := by
  have hinv := inv_start now o page isDefault persistence kind backing hasDirectory hkind hsize
    hstart
  unfold Region.start fresh MeteredMemory.start at hstart
  simp only at hstart
  rcases hmemory : (PageMemory.fresh o page backing).start h with ⟨_ | _, m, h₁⟩
  · rw [hmemory] at hstart
    cases hstart
  · obtain ⟨-, -, -, hok, -⟩ := PageMemory.start_fresh o page backing hsize hmemory
    obtain ⟨hstarted, hpage, hchunks⟩ := hok rfl
    rw [hmemory] at hstart
    cases hstart
    exact {
      inv := fun h => hinv.any_host rfl rfl h
      options := rfl
      persistence := rfl
      started := hstarted
      pageSize := hpage
      chunks := hchunks
      freeList := rfl }

variable {o : RegionOptions} {persistence : Bool}

theorem JustStarted.systemPageSize (hr : JustStarted o page persistence r) :
    r.store.memory.systemPageSize = page + PageMemory.headerSize := by
  rw [PageMemory.systemPageSize, hr.pageSize]

theorem JustStarted.total (hr : JustStarted o page persistence r) :
    r.store.memory.total = o.pageCount (page + PageMemory.headerSize) := by
  unfold PageMemory.total RegionOptions.pageCount PageMemory.pagesIn
  rw [hr.chunks, hr.systemPageSize]
  simp only [Nat.one_shiftLeft]

theorem JustStarted.sparesPages (hr : JustStarted o page persistence r) :
    r.watermark.less (Binary64.ofNat r.store.memory.total)
      = o.sparesPages (page + PageMemory.headerSize) := by
  unfold Region.watermark RegionOptions.sparesPages
  rw [hr.total, hr.options, hr.systemPageSize]

theorem JustStarted.counted (hr : JustStarted o page persistence r) (host : Host) :
    Counted r r host where
  memory := (hr.inv host).memory
  further := .refl _
  coherent := (hr.inv host).coherent
  kind := (hr.inv host).kind
  options := rfl
  persistence := rfl

theorem JustStarted.filled (hr : JustStarted o page persistence r) (host : Host) :
    Filled r page 0 r host where
  inv := hr.inv host
  further := .refl _
  options := rfl
  started := hr.started
  capacity := by rw [hr.freeList]; rfl
  full p hp := by
    rw [hr.freeList] at hp
    cases hp
  pool := by rw [hr.freeList]; rfl
  loaded := by
    rw [(hr.inv host).loaded, hr.freeList]
    rfl

/-- **Memory is used up just if there are no pages to spare.** -/
theorem JustStarted.outOfMemory (hr : JustStarted o page persistence r) (hpage : page ≠ 0)
    (hevicts : o.evicts persistence = true) (hpool : 0 < o.poolTarget) (host : Host) :
    (o.sparesPages (page + PageMemory.headerSize) = true →
        ∀ s k, Run ClientCall r host s k → ∀ row fault,
          (s.insertRow row k).1 = some (.error fault) → fault.isOutOfMemory = false)
      ∧ (o.sparesPages (page + PageMemory.headerSize) = false →
        ∃ fault, (r.insertRows page (o.pageCount (page + PageMemory.headerSize) + 1) host).1
            = some (.error fault)
          ∧ (fault.isOutOfMemory = true ∨ fault.isMapping = true)) := by
  refine ⟨fun hspare s k hrun row fault herror => ?_, fun hlow => ?_⟩
  · refine ((hr.counted host).run hrun).insertRow_error ?_ ?_ ?_ herror
    · rw [hr.options, hr.persistence]
      exact hevicts
    · rw [hr.options]
      exact hpool
    · rw [hr.sparesPages]
      exact hspare
  · refine (hr.filled host).insertRows_error _ hpage ?_ ?_
    · rw [hr.total, Nat.zero_add]
    · rw [hr.sparesPages]
      exact hlow

end Region
end PageRegions
