import PageRegions.Proofs.Region.MakingRoom
import PageRegions.Proofs.Region.Placing

/-!
# The parts of a region agree

Page memory, free list and tracker of a region each have their own idea of which pages there are.
Clients who do nothing but place and remove rows, make room and touch pages that hold rows cannot
make them differ: a page is allocated just if it is a data page or pooled, and tracked just if it
holds rows. `Inv` is what every such call keeps, whether it succeeds or fails, and so all sequences
of them do.

Only what each part does to its own pages is needed here, not how it does it: how a page is picked,
where a row is placed and where a page lies in memory do not occur.

A region whose start failed is included. Its tracker takes no pages in, and so it has to be said
that there are no rows either (`awake`).
-/

set_option autoImplicit false

namespace PageRegions

/-- What clients ask a region for who use its pages for rows and for nothing else. -/
inductive RowCall (r : Region) : RegionCall → Prop
  | insert (row : UInt32) : RowCall r (.insert row)
  | remove (page : PageId) (row : UInt32) : RowCall r (.remove page row)
  | ensure : RowCall r .ensure
  | touch (page : PageId) (holds : r.freeList.holds page = true) : RowCall r (.touch page)

namespace Region

/-- What such calls keep. -/
structure Inv (r : Region) (h : Host) : Prop where
  memory : r.store.memory.Inv h
  list : r.freeList.Inv
  handed : ∀ page, (r.store.memory.header? page).isSome = true
    ↔ r.freeList.holds page = true ∨ page ∈ r.freeList.pool
  loaded : r.store.memory.loaded.toNat = r.freeList.pages.length + r.freeList.pool.length
  coherent : r.tracker.Coherent
  kind : r.tracker.kind ≠ .idle
  tracked : ∀ page, page ∈ r.tracker.pages ↔ r.freeList.holds page = true
  /-- The tracker takes pages in, or there are none and there will be none. -/
  awake : r.tracker.started = true
    ∨ r.store.memory.started = false ∧ r.freeList.pages = [] ∧ r.freeList.pool = []

theorem Inv.congr_host {r : Region} {h : Host} (hr : r.Inv h) {k : Host}
    (hsame : ∀ s ∈ r.store.memory.segments, k.block s.block = h.block s.block) : r.Inv k :=
  { hr with memory := hr.memory.congr_host hsame }

/-- As long as there are no pages, any host will do. -/
theorem Inv.any_host {r : Region} {h : Host} (hr : r.Inv h) (hpages : r.freeList.pages = [])
    (hpool : r.freeList.pool = []) (k : Host) : r.Inv k :=
  { hr with
    memory := { hr.memory with
      marked := fun page block address hpage => by
        have hhanded := (hr.handed page).mp (by rw [hpage]; rfl)
        rw [FreeList.holds, FreeList.page?, hpages, hpool] at hhanded
        rcases hhanded with hholds | hmem
        · cases hholds
        · cases hmem } }

/-- No tracked page is without rows. -/
theorem Inv.stale_eq_nil {r : Region} {h : Host} (hr : r.Inv h) : r.stale = [] := by
  refine List.filter_eq_nil_iff.mpr fun page hpage => ?_
  rw [(hr.tracked page).mp hpage]
  exact Bool.false_ne_true

/-- Tracked pages that hold no rows: there are none of them to be dropped. -/
theorem Inv.stale_nil {r : Region} {h : Host} (hr : r.Inv h) {stale left : List PageId}
    (hempty : ∀ x ∈ stale, r.freeList.holds x = false)
    (hperm : r.tracker.pages.Perm (stale ++ left)) : stale = [] := by
  refine List.eq_nil_iff_forall_not_mem.mpr fun x hx => ?_
  have htracked := (hr.tracked x).mp (hperm.mem_iff.mpr (List.mem_append_left _ hx))
  rw [hempty x hx] at htracked
  cases htracked

/-! ## Evicting -/

theorem Inv.evictPage {r : Region} {h : Host} (hr : r.Inv h) :
    (r.evictPage h).2.1.Inv (r.evictPage h).2.2 := by
  have hev := evictPage_eviction hr.coherent hr.kind h
  generalize r.evictPage h = out at hev
  cases hev with
  -- No page without rows is tracked, so none is dropped on the way, and the tracked pages change by
  -- the victim at most.
  | refused fault stale t drawn cause empty perm why coherent started kind =>
    have hnil := hr.stale_nil empty perm
    subst hnil
    rw [List.nil_append] at perm
    exact {
      memory := hr.memory.congr_host fun _ _ => rfl
      list := hr.list
      handed := hr.handed
      loaded := hr.loaded
      coherent := coherent
      kind := fun he => hr.kind (kind.symm.trans he)
      tracked := fun page => perm.symm.mem_iff.trans (hr.tracked page)
      awake := hr.awake.imp_left started.trans }
  | evicted victim stale t drawn holds empty perm coherent started kind =>
    obtain ⟨p, hp, hid, hevict⟩ := FreeList.evict_of_holds holds
    have hnil : stale = [] := by
      have hmiddle : r.tracker.pages.Perm (stale ++ victim :: t.pages) :=
        perm.trans List.perm_middle.symm
      exact hr.stale_nil empty hmiddle
    subst hnil
    rw [List.nil_append] at perm
    have hnodup := perm.nodup_iff.mp hr.coherent.nodup
    rw [List.nodup_cons] at hnodup
    have hstarted : r.tracker.started = true := by
      rcases hr.awake with hstarted | ⟨-, hpages, -⟩
      · exact hstarted
      · rw [FreeList.page?, hpages] at hp
        cases hp
    refine {
      memory := hr.memory.congr_host fun _ _ => rfl
      list := ?_
      handed := fun page => ?_
      loaded := ?_
      coherent := coherent
      kind := fun he => hr.kind (kind.symm.trans he)
      tracked := fun page => ?_
      awake := Or.inl (started.trans hstarted) }
    · simp only [hevict]
      exact hr.list.close hp
    · simp only [hevict, FreeList.close_holds, FreeList.close_pool, hid, List.mem_cons,
        Bool.and_eq_true, decide_eq_true_eq]
      rw [hr.handed]
      by_cases hpage : page = victim
      · subst hpage
        simp [holds]
      · simp [hpage]
    · simp only [hevict, FreeList.close_pool, List.length_cons]
      rw [hr.loaded, ← FreeList.close_length hr.list.keyed hp]
      omega
    · simp only [hevict, FreeList.close_holds, hid, Bool.and_eq_true, decide_eq_true_eq]
      rw [← hr.tracked, perm.mem_iff, List.mem_cons]
      by_cases hpage : page = victim
      · subst hpage
        simp [hnodup.1]
      · simp [hpage]

theorem Inv.ensureFreeSpace {r : Region} {h : Host} (hr : r.Inv h) :
    (r.ensureFreeSpace h).2.1.Inv (r.ensureFreeSpace h).2.2 :=
  ensureFreeSpace_keeps (I := Inv) (fun _ _ hr => hr.evictPage)
    (fun _ _ _ hr => hr.congr_host fun _ _ => rfl) hr

/-! ## Placing a row -/

theorem Inv.started_of_mem {r : Region} {h : Host} (hr : r.Inv h) {page : PageId}
    (hpage : r.freeList.holds page = true ∨ page ∈ r.freeList.pool) :
    r.tracker.started = true := by
  rcases hr.awake with hstarted | ⟨-, hpages, hpool⟩
  · exact hstarted
  · rcases hpage with hholds | hmem
    · rw [FreeList.holds, FreeList.page?, hpages] at hholds
      cases hholds
    · rw [hpool] at hmem
      cases hmem

/-- The tracker after a page that has got a row is touched. -/
theorem Inv.mem_touch {r : Region} {h : Host} (hr : r.Inv h) (hstarted : r.tracker.started = true)
    {f : FreeList} {page : PageId} {now : UInt64}
    (hholds : ∀ x, f.holds x = (decide (x = page) || r.freeList.holds x)) (x : PageId) :
    x ∈ (r.tracker.touch page now).pages ↔ f.holds x = true := by
  rw [hr.coherent.mem_touch hstarted, hr.tracked, hholds, Bool.or_eq_true, decide_eq_true_iff]

theorem Inv.placeRow {r : Region} {h : Host} (hr : r.Inv h) (row : UInt32) :
    (r.placeRow row h).2.1.Inv (r.placeRow row h).2.2 := by
  have hplace := placeRow_placement hr.memory row
  generalize r.placeRow row h = out at hplace
  have hkept : ∀ page now, (r.tracker.touch page now).kind ≠ .idle := fun page now he =>
    hr.kind ((Tracker.touch_kind _ _ _).symm.trans he)
  cases hplace with
  | refused fault => exact hr
  | added page fits found =>
    obtain ⟨p, hp, hroom⟩ := FreeList.findRoom?_fits hr.list fits found
    have hholds : ∀ x, (r.freeList.addRow page row).holds x
        = (decide (x = page) || r.freeList.holds x) := by
      intro x
      rw [FreeList.addRow_holds hp]
      by_cases hx : x = page
      · simp [hx, FreeList.holds, hp]
      · simp [hx]
    have hstarted := hr.started_of_mem (Or.inl (FreeList.holds_iff.mpr ⟨p, hp⟩))
    exact {
      memory := hr.memory
      list := hr.list.addRow hp hroom
      handed := fun x => by
        rw [hr.handed, FreeList.addRow_holds hp, FreeList.addRow_pool]
      loaded := by
        rw [hr.loaded, FreeList.addRow_length hr.list.keyed hp, FreeList.addRow_pool]
      coherent := hr.coherent.touch page h.now
      kind := hkept page _
      tracked := hr.mem_touch hstarted hholds
      awake := Or.inl ((Tracker.touch_started _ _ _).trans hstarted) }
  | reopened page g fits popped =>
    obtain ⟨hg, hpage, hpool, hpages, hcapacity⟩ := hr.list.popPool popped
    have hmem : page ∈ r.freeList.pool := hpool ▸ List.mem_cons_self
    have hnone : g.page? page = none := by
      rw [FreeList.page?_congr hpages]
      exact hr.list.apart page hmem
    have hholds : ∀ x, (g.openPage page row).holds x
        = (decide (x = page) || r.freeList.holds x) := by
      intro x
      rw [FreeList.openPage_holds, FreeList.holds, FreeList.page?_congr hpages]
      rfl
    have hstarted := hr.started_of_mem (Or.inr hmem)
    exact {
      memory := hr.memory
      list := hg.openPage hnone hpage (hcapacity ▸ fits)
      handed := fun x => by
        rw [hr.handed, hholds, FreeList.openPage_pool, hpool, List.mem_cons, Bool.or_eq_true,
          decide_eq_true_iff]
        tauto
      loaded := by
        rw [hr.loaded, FreeList.openPage_length hnone, FreeList.openPage_pool, hpool, hpages,
          List.length_cons]
        omega
      coherent := hr.coherent.touch page h.now
      kind := hkept page _
      tracked := hr.mem_touch hstarted hholds
      awake := Or.inl ((Tracker.touch_started _ _ _).trans hstarted) }
  | opened page m metrics k fits empty started new headers inv further loaded =>
    -- Memory and the list agreed before, so a page that is new to the one is new to the other.
    have hnone : r.freeList.page? page = none := by
      have hnot := hr.handed page
      rw [new, FreeList.holds_iff] at hnot
      refine Option.eq_none_iff_forall_ne_some.mpr fun p hp => ?_
      exact absurd (hnot.mpr (Or.inl ⟨p, hp⟩)) Bool.false_ne_true
    have hstarted : r.tracker.started = true := by
      rcases hr.awake with hstarted | ⟨hnot, -⟩
      · exact hstarted
      · rw [hnot] at started
        cases started
    exact {
      memory := inv
      list := hr.list.openPage hnone (by simp [empty]) fits
      handed := fun x => by
        rw [headers, FreeList.openPage_holds, FreeList.openPage_pool, Bool.or_eq_true,
          Bool.or_eq_true, hr.handed, decide_eq_true_iff, or_assoc]
      loaded := by
        rw [loaded, hr.loaded, FreeList.openPage_length hnone, FreeList.openPage_pool]
        omega
      coherent := hr.coherent.touch page _
      kind := hkept page _
      tracked := hr.mem_touch hstarted fun x => FreeList.openPage_holds
      awake := Or.inl ((Tracker.touch_started _ _ _).trans hstarted) }
  | unplaced fault m metrics k empty headers inv further loaded why =>
    exact {
      memory := inv
      list := hr.list
      handed := fun x => by
        rw [headers]
        exact hr.handed x
      loaded := by
        rw [loaded]
        exact hr.loaded
      coherent := hr.coherent
      kind := hr.kind
      tracked := hr.tracked
      -- Memory that was not started stays so, whatever it was asked.
      awake := hr.awake.imp_right fun hasleep => ⟨further.started.trans hasleep.1, hasleep.2⟩ }

/-! ## The other calls -/

theorem Inv.insertRow {r : Region} {h : Host} (hr : r.Inv h) (row : UInt32) :
    (r.insertRow row h).2.1.Inv (r.insertRow row h).2.2 :=
  insertRow_keeps (I := Inv) (fun _ _ hr => hr.placeRow row) hr.ensureFreeSpace

theorem Inv.removeRow {r : Region} {h : Host} (hr : r.Inv h) (page : PageId) (row : UInt32) :
    (r.removeRow page row).2.Inv h := by
  have hrem := FreeList.removeRow_removal r.freeList page row
  unfold Region.removeRow
  generalize r.freeList.removeRow page row = out at hrem
  cases hrem with
  | refused fault => exact hr
  | kept p found fits more =>
    exact {
      memory := hr.memory
      list := hr.list.lessen found fits
      handed := fun x => by rw [hr.handed, FreeList.lessen_holds found, FreeList.lessen_pool]
      loaded := by rw [hr.loaded, FreeList.lessen_length hr.list.keyed found, FreeList.lessen_pool]
      coherent := hr.coherent
      kind := hr.kind
      tracked := fun x => by
        rw [FreeList.lessen_holds found]
        exact hr.tracked x
      awake := Or.inl (hr.started_of_mem (Or.inl (FreeList.holds_iff.mpr ⟨p, found⟩))) }
  | emptied p found fits last =>
    have hid := FreeList.page?_id found
    have hempty : (r.freeList.close p).holds page = false := by
      rw [FreeList.close_holds, hid]
      simp
    obtain ⟨hcoherent, hmem⟩ := hr.coherent.forget (r.freeList.close p) page
    have hholds : r.freeList.holds page = true := FreeList.holds_iff.mpr ⟨p, found⟩
    show Inv { r with
      freeList := r.freeList.close p
      tracker := r.tracker.forget (r.freeList.close p) page } h
    exact {
      memory := hr.memory
      list := hr.list.close found
      handed := fun x => by
        rw [hr.handed, FreeList.close_holds, FreeList.close_pool, hid, List.mem_cons,
          Bool.and_eq_true, decide_eq_true_iff]
        by_cases hx : x = page
        · simp [hx, hholds]
        · simp [hx]
      loaded := by
        show _ = (r.freeList.close p).pages.length + (r.freeList.close p).pool.length
        rw [hr.loaded, FreeList.close_pool, List.length_cons,
          ← FreeList.close_length hr.list.keyed found]
        omega
      coherent := hcoherent
      kind := fun he => hr.kind ((Tracker.forget_kind _ _ _).symm.trans he)
      tracked := fun x => by
        refine (hmem x).trans ?_
        rw [show RowStore.holdsRows (r.freeList.close p) page = false from hempty, hr.tracked,
          FreeList.close_holds, hid, Bool.and_eq_true, decide_eq_true_iff]
        simp [and_comm]
      awake := Or.inl ((Tracker.forget_started _ _ _).trans
        (hr.started_of_mem (Or.inl hholds))) }

theorem Inv.touch {r : Region} {h : Host} (hr : r.Inv h) {page : PageId}
    (hholds : r.freeList.holds page = true) : (r.touch page h).Inv h where
  memory := hr.memory
  list := hr.list
  handed := hr.handed
  loaded := hr.loaded
  coherent := hr.coherent.touch page h.now
  kind := fun he => hr.kind ((Tracker.touch_kind _ _ _).symm.trans he)
  tracked := hr.mem_touch (hr.started_of_mem (Or.inl hholds)) fun x => by
    show r.freeList.holds x = _
    by_cases hx : x = page
    · simp [hx, hholds]
    · simp [hx]
  awake := Or.inl ((Tracker.touch_started _ _ _).trans (hr.started_of_mem (Or.inl hholds)))

/-- **What one call preserves.** -/
theorem Inv.perform {r : Region} {h : Host} (hr : r.Inv h) {c : RegionCall} (hc : RowCall r c) :
    (r.perform h c).2.1.Inv (r.perform h c).2.2 := by
  cases hc with
  | insert row => exact hr.insertRow row
  | remove page row => exact hr.removeRow page row
  | ensure => exact hr.ensureFreeSpace
  | touch page holds => exact hr.touch holds

/-- Making room is evicting what is lacking: there is no page that would be dropped on the way. -/
theorem Inv.makeRoom {r : Region} {h : Host} (hr : r.Inv h) (hover : r.isOver = true)
    (hlt : r.pooled < r.options.poolTarget) :
    ∃ result victims s k, r.makeRoom h = (some result, s, k) ∧ RoomMade r h victims result s := by
  refine makeRoom_roomMade hr.coherent hr.kind ?_ hover hlt h
  rw [hr.stale_eq_nil]
  exact Nat.succ_pos _

/-- Making room ends, with a success or with a fault. -/
theorem Inv.ensureFreeSpace_isSome {r : Region} {h : Host} (hr : r.Inv h) :
    (r.ensureFreeSpace h).1.isSome = true := by
  by_cases henough : r.isOver = false ∨ r.options.poolTarget ≤ r.pooled
  · rw [ensureFreeSpace_of_enough henough]
    rfl
  · rw [not_or, Bool.not_eq_false, UInt64.not_le] at henough
    cases hevicts : r.options.evicts r.persistence with
    | false =>
      rw [ensureFreeSpace_of_not_evicts hevicts]
      rfl
    | true =>
      obtain ⟨result, victims, s, k, hrun, -⟩ := hr.makeRoom henough.1 henough.2
      obtain ⟨notes, heq, -⟩ := ensureFreeSpace_of_evicts hevicts hrun
      rw [heq]
      rfl

theorem Inv.perform_isSome {r : Region} {h : Host} (hr : r.Inv h) {c : RegionCall}
    (hc : RowCall r c) : (r.perform h c).1.isSome = true := by
  cases hc with
  | insert row =>
    have hsome := hr.ensureFreeSpace_isSome
    simp only [Region.perform, Region.insertRow]
    generalize r.ensureFreeSpace h = out at hsome
    obtain ⟨_ | _ | _, s, k⟩ := out
    · cases hsome
    · rfl
    · rfl
  | ensure => exact hr.ensureFreeSpace_isSome
  | remove | touch => rfl

/-! ## All calls -/

theorem Inv.run {first r : Region} {host h : Host} (hfirst : first.Inv host)
    (hrun : Run RowCall first host r h) : r.Inv h :=
  hrun.keeps (fun _ _ _ hr hc => hr.perform hc) (fun _ _ _ hr hsame => hr.congr_host hsame) hfirst

/-- A region that was just started, or could not be. -/
theorem inv_start (now : UInt64) (o : RegionOptions) (pageSize : UInt32)
    (isDefault persistence : Bool) (kind : TrackerKind) (backing : Backing) (hasDirectory : Bool)
    (hkind : kind ≠ .idle) (hsize : pageSize.toNat + 24 < 2 ^ 32) {h k : Host} {r : Region}
    {result : Except Fault Unit}
    (hstart : (fresh now o pageSize isDefault persistence kind backing hasDirectory).start h
      = (result, r, k)) : r.Inv k := by
  unfold start fresh MeteredMemory.start at hstart
  simp only at hstart
  rcases hmemory : (PageMemory.fresh o pageSize backing).start h with ⟨out, m, h₁⟩
  obtain ⟨hinv, hloaded, hheader, hok, herror⟩ := PageMemory.start_fresh o pageSize backing hsize
    hmemory
  have hnone : ∀ page, (FreeList.fresh o.name pageSize).holds page = false := fun _ => rfl
  have htracker : (Tracker.fresh kind).kind = kind ∧ (Tracker.fresh kind).pages = [] := by
    cases kind <;> exact ⟨rfl, rfl⟩
  have hstarted : (Tracker.fresh kind).start.kind = kind ∧ (Tracker.fresh kind).start.pages = []
      ∧ (Tracker.fresh kind).start.started = true := by
    cases kind with
    | idle => exact absurd rfl hkind
    | lru | lru2 | fairQueue => exact ⟨rfl, rfl, rfl⟩
  rw [hmemory] at hstart
  cases out with
  | error fault =>
    cases hstart
    exact {
      memory := hinv.congr_host fun _ _ => rfl
      list := FreeList.inv_fresh _ _
      handed := fun page => by rw [hheader, hnone]; simp [FreeList.fresh]
      loaded := by rw [hloaded]; rfl
      coherent := Tracker.coherent_fresh kind
      kind := fun he => hkind (htracker.1.symm.trans he)
      tracked := fun page => by rw [htracker.2, hnone]; simp
      awake := Or.inr ⟨herror fault rfl, rfl, rfl⟩ }
  | ok =>
    cases hstart
    exact {
      memory := hinv.congr_host fun _ _ => rfl
      list := FreeList.inv_fresh _ _
      handed := fun page => by rw [hheader, hnone]; simp [FreeList.fresh]
      loaded := by rw [hloaded]; rfl
      coherent := (Tracker.coherent_fresh kind).start
      kind := fun he => hkind (hstarted.1.symm.trans he)
      tracked := fun page => by rw [hstarted.2.1, hnone]; simp
      awake := Or.inl hstarted.2.2 }

/-- What is to be said of the pages of a region on its host. -/
structure Consistent (r : Region) (h : Host) : Prop where
  /-- A page is allocated just if it is a data page or pooled, -/
  allocated : ∀ page, r.store.memory.isAllocated h page = true
    ↔ r.freeList.holds page = true ∨ page ∈ r.freeList.pool
  /-- never both, -/
  apart : ∀ page ∈ r.freeList.pool, r.freeList.holds page = false
  /-- and never twice. -/
  keyed : (r.freeList.pages.map (·.id)).Nodup
  pool_nodup : r.freeList.pool.Nodup
  loaded : r.loaded.toNat = r.freeList.pages.length + r.pooled.toNat
  tracked : ∀ page, page ∈ r.tracker.pages ↔ r.freeList.holds page = true
  tracked_nodup : r.tracker.pages.Nodup

theorem Inv.consistent {r : Region} {h : Host} (hr : r.Inv h) : r.Consistent h where
  allocated page := by rw [hr.memory.isAllocated_eq, hr.handed]
  apart page hpage := by rw [FreeList.holds, hr.list.apart page hpage, Option.isSome_none]
  keyed := hr.list.keyed
  pool_nodup := hr.list.pool_nodup
  loaded := by
    have hsum := hr.loaded
    have hlt := r.store.memory.loaded.toNat_lt
    change r.store.memory.loaded.toNat = _ + (UInt64.ofNat r.freeList.pool.length).toNat
    rw [UInt64.toNat_ofNat', Nat.mod_eq_of_lt (by omega)]
    exact hsum
  tracked := hr.tracked
  tracked_nodup := hr.coherent.nodup

/-- **The parts of a region agree from its start on**, whatever clients do with rows and however
the host behaves; and every call of theirs returns. -/
theorem run_consistent {now : UInt64} {o : RegionOptions} {pageSize : UInt32}
    {isDefault persistence : Bool} {kind : TrackerKind} {backing : Backing} {hasDirectory : Bool}
    {host : Host} (hkind : kind ≠ .idle) (hsize : pageSize.toNat + 24 < 2 ^ 32)
    {r : Region} {h : Host}
    (hrun : Run RowCall
      ((fresh now o pageSize isDefault persistence kind backing hasDirectory).start host).2.1
      ((fresh now o pageSize isDefault persistence kind backing hasDirectory).start host).2.2
      r h) :
    r.Consistent h ∧ ∀ c, RowCall r c → (r.perform h c).1.isSome = true := by
  have hr := (inv_start now o pageSize isDefault persistence kind backing hasDirectory hkind hsize
    rfl).run hrun
  exact ⟨hr.consistent, fun c hc => hr.perform_isSome hc⟩

/-- Two full pages, of which one has lost its row: both are loaded, one is tracked, one pooled. -/
theorem run_consistent_two_pages :
    ∃ (r : Region) (h : Host), r.Consistent h ∧ r.loaded = 2 ∧ r.pooled = 1
      ∧ r.tracker.pages = [⟨0, 1⟩] := by
  let region := fresh 0 (tenMiB Binary64.nan) 4194280 false false .fairQueue .anonymous false
  let started := region.start (Host.fresh ⟨[], []⟩ fun _ => 0)
  have hfirst : Run RowCall started.2.1 started.2.2 started.2.1 started.2.2 := .first
  have hrun := ((hfirst.call (.insert 4194280) (.insert 4194280)).call (.insert 4194280)
    (.insert 4194280)).call (.remove ⟨0, 0⟩ 4194280) (.remove ⟨0, 0⟩ 4194280)
  exact ⟨_, _, (run_consistent (by decide) (by decide) hrun).1, by decide +kernel,
    by decide +kernel, by decide +kernel⟩

end Region
end PageRegions
