import PageRegions.Proofs.Region.Returning

/-!
# Rows of impossible sizes

A row without bytes and a row that is larger than a page go nowhere. It is the free list that
refuses them, and the free list is asked last: room is made before that, for a row that will not
need any. So a row that is refused may still cost pages. What it does is what making room does
(`Rejected.effect`), no more and no less. Where nothing is lacking that is nothing at all; where the
region is short of pages some are evicted, with the rows of others.

How many pages may have lost their rows behind the tracker's back does not matter here, as it does
for the number of pages that are evicted (see the module on making room): the tracker may give up,
and all that was said of the pages it evicted until then holds still (`evicted_of_makeRoom`).
-/

set_option autoImplicit false

namespace PageRegions

/-! ## The size of a page is kept -/

namespace FreeList

variable {f : FreeList}

theorem insertRow_capacity {σ : Type} (f : FreeList) (allocate : σ → Except Fault PageId × σ)
    (row : UInt32) (s : σ) : (f.insertRow allocate row s).2.1.capacity = f.capacity := by
  have hins := insertRow_insertion allocate f row s
  generalize f.insertRow allocate row s = out at hins
  cases hins with
  | refused | unplaced => rfl
  | added | opened => simp only [addRow_capacity, openPage_capacity]
  | reopened id g _ _ _ popped =>
    rw [openPage_capacity]
    unfold popPool at popped
    split at popped <;> cases popped
    rfl

theorem removeRow_capacity (id : PageId) (row : UInt32) :
    (f.removeRow id row).2.capacity = f.capacity := by
  have hrem := removeRow_removal f id row
  generalize f.removeRow id row = out at hrem
  cases hrem with
  | refused => rfl
  | emptied => exact close_capacity
  | kept => exact lessen_capacity

theorem evict_capacity (id : PageId) : (f.evict id).2.capacity = f.capacity := by
  rcases f.evict_cases id with ⟨p, -, heq⟩ | ⟨-, heq⟩
  · rw [heq]
    exact close_capacity
  · rw [heq]

theorem recycle_capacity (isAllocated : PageId → Bool) (id : PageId) :
    (f.recycle isAllocated id).2.capacity = f.capacity := by
  rcases f.recycle_cases isAllocated id with ⟨-, -, -, heq⟩ | ⟨fault, heq⟩
  · rw [heq]
    rfl
  · rw [heq]

theorem takeRecycled_capacity : f.takeRecycled.2.capacity = f.capacity := by
  unfold takeRecycled popPool
  cases f.pool <;> rfl

end FreeList

namespace Region

variable {r s : Region} {h k : Host} {row : UInt32} {result : Except Fault Unit}

theorem evictPage_capacity (hcoherent : r.tracker.Coherent) (h : Host) :
    (r.evictPage h).2.1.freeList.capacity = r.freeList.capacity := by
  by_cases hidle : r.tracker.kind = .idle
  · rw [evictPage_of_idle hidle]
  · have hev := evictPage_eviction hcoherent hidle h
    generalize r.evictPage h = out at hev
    cases hev with
    | evicted => exact FreeList.evict_capacity _
    | refused => rfl

theorem ensureFreeSpace_capacity (hcoherent : r.tracker.Coherent) (h : Host) :
    (r.ensureFreeSpace h).2.1.freeList.capacity = r.freeList.capacity := by
  have hkept := ensureFreeSpace_keeps
    (I := fun s _ => s.tracker.Coherent ∧ s.freeList.capacity = r.freeList.capacity)
    (fun s k hs => ⟨evictPage_coherent hs.1 k, (evictPage_capacity hs.1 k).trans hs.2⟩)
    (fun _ _ _ hs => hs) (h := h) ⟨hcoherent, rfl⟩
  exact hkept.2

theorem placeRow_capacity (r : Region) (row : UInt32) (h : Host) :
    (r.placeRow row h).2.1.freeList.capacity = r.freeList.capacity :=
  r.freeList.insertRow_capacity (fun s : MeteredMemory × Host => s.1.allocate s.2) row (r.store, h)

/-- No call changes what the free list takes a page to hold. -/
theorem perform_capacity (hcoherent : r.tracker.Coherent) (h : Host) (c : RegionCall) :
    (r.perform h c).2.1.freeList.capacity = r.freeList.capacity := by
  cases c with
  | start => exact congrArg FreeList.capacity (r.start_parts h).1
  | stop =>
    simp only [perform, stop]
    split <;> rfl
  | ensure => exact ensureFreeSpace_capacity hcoherent h
  | evict => exact evictPage_capacity hcoherent h
  | insert row =>
    exact insertRow_keeps (I := fun s _ => s.freeList.capacity = r.freeList.capacity)
      (fun s k hs => (placeRow_capacity s row k).trans hs) (ensureFreeSpace_capacity hcoherent h)
  | remove page row =>
    have hkept := r.freeList.removeRow_capacity page row
    simp only [perform, removeRow]
    generalize r.freeList.removeRow page row = out at hkept
    obtain ⟨_ | _, f⟩ := out <;> exact hkept
  | dropRows page => exact FreeList.evict_capacity page
  | touch | allocate | free | measure => rfl
  | recycle page => exact FreeList.recycle_capacity _ page
  | take => exact FreeList.takeRecycled_capacity

/-- **The free list of a region takes pages to be as large as they are.** -/
theorem Reached.capacity (hr : Reached r) : r.freeList.capacity = r.store.memory.pageSize := by
  induction hr with
  | fresh => rfl
  | call c h before ih =>
    rw [perform_capacity before.coherent, ih]
    exact (perform_memory _ h c).sameSizes.pageSize.symm

/-! ## Evictions, until the tracker gives up -/

/-- Without a victim the pages that can be evicted are those from before. -/
theorem perm_evictable_of_refused {t : Tracker} {dropped : List PageId}
    (hempty : ∀ x ∈ dropped, r.freeList.holds x = false)
    (hperm : r.tracker.pages.Perm (dropped ++ t.pages)) :
    r.evictable.Perm ({ r with tracker := t } : Region).evictable
      ∧ ({ r with tracker := t } : Region).stale.length ≤ r.stale.length := by
  have hnone : dropped.filter (fun x => r.freeList.holds x) = [] :=
    List.filter_eq_nil_iff.mpr fun x hx => by simp [hempty x hx]
  refine ⟨?_, ?_⟩
  · have hkept := hperm.filter fun x => r.freeList.holds x
    rw [List.filter_append, hnone, List.nil_append] at hkept
    exact hkept
  · have hcount := (hperm.filter fun x => !r.freeList.holds x).length_eq
    rw [List.filter_append, List.length_append] at hcount
    exact (Nat.le_add_left _ _).trans_eq hcount.symm

/-- **Making room is a run of evictions**, whatever ends it, and no more than the pool lacks. The
induction is on the loop. -/
theorem evicted_of_makeRoom {watermark : Binary64} {target : UInt64} {u v : Region × Host}
    (hroom : supply.makeRoom watermark target u = (some result, v))
    (hcoherent : u.1.tracker.Coherent) (hkind : u.1.tracker.kind ≠ .idle) :
    ∃ victims, Evicted u.1 u.2 victims v.1 v.2
      ∧ victims.length ≤ target.toNat - u.1.pooled.toNat := by
  fun_induction supply.makeRoom watermark target u with
  | case1 u hshort fault t hevict =>
    cases hroom
    have hev := evictPage_eviction hcoherent hkind u.2
    simp only [supply] at hevict
    generalize u.1.evictPage u.2 = out at hev hevict
    cases hev with
    | evicted => cases hevict
    | refused fault dropped t drawn _ empty perm _ coherent started kind =>
      cases hevict
      obtain ⟨hperm, hstale⟩ := perm_evictable_of_refused empty perm
      exact ⟨[], {
        evictable := hperm
        stale_le := hstale
        rest := rfl
        host := ⟨drawn, rfl⟩
        coherent := coherent
        started := started
        kind := kind }, Nat.zero_le _⟩
  | case2 u hshort t hevict hmore ih =>
    have hlack := UInt64.lt_iff_toNat_lt.mp (Supply.pooled_lt_of_isShort hshort)
    have hgrows := UInt64.lt_iff_toNat_lt.mp hmore
    have hev := evictPage_eviction hcoherent hkind u.2
    simp only [supply] at hevict
    generalize u.1.evictPage u.2 = out at hev hevict
    cases hev with
    | refused => cases hevict
    | evicted victim dropped t' drawn holds empty perm coherent started kind =>
      cases hevict
      obtain ⟨victims, hrun, hfew⟩ := ih hroom coherent fun he => hkind (kind.symm.trans he)
      refine ⟨victim :: victims, hrun.cons hcoherent holds empty perm started kind, ?_⟩
      rw [List.length_cons]
      change u.1.pooled.toNat < target.toNat at hlack
      change u.1.pooled.toNat < _ at hgrows
      change victims.length ≤ target.toNat - (supply.pooled _).toNat at hfew
      omega
  | case3 => cases hroom
  | case4 u _ =>
    cases hroom
    exact ⟨[], .nil v.2 v.2.drawn rfl (Nat.le_refl _) hcoherent rfl rfl, Nat.zero_le _⟩

/-- A region `s` that differs from `r` by evictions: pages with rows, tracked ones and each once,
went to the pool, no more than that lacked. All other data pages keep their rows. -/
structure OnlyEvicted (r s : Region) (victims : List PageId) : Prop where
  nodup : victims.Nodup
  tracked : ∀ v ∈ victims, v ∈ r.tracker.pages ∧ r.freeList.holds v = true
  few : victims.length ≤ r.options.poolTarget.toNat - r.pooled.toNat
  pages : s.freeList.pages = r.freeList.pages.filter fun p => decide (p.id ∉ victims)
  pool : s.freeList.pool = victims.reverse ++ r.freeList.pool
  evictable : r.evictable.Perm (victims ++ s.evictable)
  memory : s.store.memory = r.store.memory

theorem OnlyEvicted.refl (r : Region) : OnlyEvicted r r [] where
  nodup := List.nodup_nil
  tracked := nofun
  few := Nat.zero_le _
  pages := (List.filter_eq_self.mpr fun _ _ => decide_eq_true List.not_mem_nil).symm
  pool := rfl
  evictable := .refl _
  memory := rfl

theorem Evicted.onlyEvicted {victims : List PageId} (hev : Evicted r h victims s k)
    (hcoherent : r.tracker.Coherent)
    (hfew : victims.length ≤ r.options.poolTarget.toNat - r.pooled.toNat) :
    OnlyEvicted r s victims := by
  have hnodup : (victims ++ s.evictable).Nodup :=
    hev.evictable.nodup_iff.mp (hcoherent.nodup.filter _)
  have htracked : ∀ v ∈ victims, v ∈ r.tracker.pages ∧ r.freeList.holds v = true := fun v hv =>
    mem_evictable.mp (hev.evictable.mem_iff.mpr (List.mem_append_left _ hv))
  obtain ⟨hpages, hpool⟩ := FreeList.evictEach_moves (f := r.freeList)
    (List.nodup_append.mp hnodup).1 fun v hv => (htracked v hv).2
  exact {
    nodup := (List.nodup_append.mp hnodup).1
    tracked := htracked
    few := hfew
    pages := by rw [hev.rest, hpages]
    pool := by rw [hev.rest, hpool]
    evictable := hev.evictable
    memory := by rw [hev.rest] }

/-- Making room does nothing but evict. With the idle tracker it does nothing. -/
theorem ensureFreeSpace_onlyEvicted (hcoherent : r.tracker.Coherent) (h : Host) :
    ∃ victims, OnlyEvicted r (r.ensureFreeSpace h).2.1 victims := by
  by_cases hidle : r.tracker.kind = .idle
  · have hsame : (r.ensureFreeSpace h).2.1 = r :=
      ensureFreeSpace_keeps (I := fun s _ => s = r)
        (fun s k hs => by
          subst hs
          rw [evictPage_of_idle hidle])
        (fun _ _ _ hs => hs) rfl
    rw [hsame]
    exact ⟨[], .refl r⟩
  · have hends := makeRoom_ne_none hcoherent hidle h
    cases hevicts : r.options.evicts r.persistence with
    | false =>
      rw [ensureFreeSpace_of_not_evicts hevicts]
      exact ⟨[], .refl r⟩
    | true =>
      obtain ⟨notes, heq, -⟩ := ensureFreeSpace_of_evicts hevicts (h := h) rfl
      rw [heq]
      change ∃ victims, OnlyEvicted r (r.makeRoom h).2.1 victims
      rcases hroom : r.makeRoom h with ⟨_ | result, s, k⟩
      · rw [hroom] at hends
        exact absurd rfl hends
      · obtain ⟨victims, hrun, hfew⟩ := evicted_of_makeRoom hroom hcoherent hidle
        exact ⟨victims, hrun.onlyEvicted hcoherent hfew⟩

/-! ## Rows that are refused -/

/-- Why a row is refused that no page can hold. -/
def sizeFault (r : Region) (row : UInt32) : Fault :=
  if row = 0 then .emptyRow else .rowTooLarge row r.freeList.capacity

theorem sizeFault_kind (r : Region) (row : UInt32) :
    (r.sizeFault row).kind = if row = 0 then .invalidArgument else .notSupported := by
  unfold sizeFault
  split <;> rfl

theorem placeRow_of_size (hsize : row = 0 ∨ r.freeList.capacity < row) (h : Host) :
    r.placeRow row h = (.error (r.sizeFault row), r, h) := by
  unfold placeRow FreeList.insertRow sizeFault
  by_cases hzero : row = 0
  · simp only [if_pos hzero]
  · simp only [if_neg hzero, if_pos (hsize.resolve_left hzero)]

/-- What a row does that no page can hold. -/
structure Rejected (r : Region) (row : UInt32) (h : Host) : Prop where
  /-- Region and host are as after making room. -/
  effect : (r.insertRow row h).2 = (r.ensureFreeSpace h).2
  /-- If there is room it is refused for its size, and otherwise with the fault of making room. -/
  result : (r.insertRow row h).1 = (r.ensureFreeSpace h).1.map fun room =>
    match room with
    | .ok () => .error (r.sizeFault row)
    | .error fault => .error fault
  /-- Rows without bytes are invalid, and those that are too large are not supported. -/
  kind : (r.sizeFault row).kind = if row = 0 then .invalidArgument else .notSupported
  /-- There is one, unless pages are to be evicted by a tracker that knows none. -/
  returns : r.tracker.kind ≠ .idle ∨ r.options.evicts r.persistence = false ∨ r.isOver = false
      ∨ r.options.poolTarget ≤ r.pooled →
    ∃ fault, (r.insertRow row h).1 = some (.error fault)
  /-- Where no pages are evicted, or none are lacking, nothing changes at all. -/
  unchanged : r.options.evicts r.persistence = false ∨ r.isOver = false
      ∨ r.options.poolTarget ≤ r.pooled →
    r.insertRow row h = (some (.error (r.sizeFault row)), r, h)
  /-- Otherwise pages may have gone to the pool. -/
  victims : ∃ victims, OnlyEvicted r (r.insertRow row h).2.1 victims

theorem insertRow_of_size (hsize : row = 0 ∨ r.freeList.capacity < row)
    (hcoherent : r.tracker.Coherent) (h : Host) :
    r.insertRow row h = ((r.ensureFreeSpace h).1.map fun room =>
      match room with
      | .ok () => .error (r.sizeFault row)
      | .error fault => .error fault, (r.ensureFreeSpace h).2) := by
  have hcapacity := ensureFreeSpace_capacity hcoherent h
  unfold insertRow
  generalize r.ensureFreeSpace h = out at hcapacity
  obtain ⟨_ | _ | _, s, k⟩ := out
  · rfl
  · rfl
  · have hfault : s.sizeFault row = r.sizeFault row := by
      unfold sizeFault
      rw [hcapacity]
    rw [← hcapacity] at hsize
    simp only [placeRow_of_size hsize, hfault, Option.map_some]

/-- **A row that no page can hold does what making room does**, in every region that can be
reached. -/
theorem reached_rejected (hr : Reached r)
    (hsize : row = 0 ∨ r.store.memory.pageSize < row) (h : Host) : Rejected r row h := by
  rw [← hr.capacity] at hsize
  have heq := insertRow_of_size hsize hr.coherent h
  have henough : r.options.evicts r.persistence = false ∨ r.isOver = false
      ∨ r.options.poolTarget ≤ r.pooled → r.ensureFreeSpace h = (some (.ok ()), r, h) := by
    rintro (hevicts | henough)
    · exact ensureFreeSpace_of_not_evicts hevicts h
    · exact ensureFreeSpace_of_enough henough h
  refine {
    effect := congrArg Prod.snd heq
    result := congrArg Prod.fst heq
    kind := r.sizeFault_kind row
    returns := fun hwhy => ?_
    unchanged := fun hwhy => by rw [heq, henough hwhy]; rfl
    victims := by rw [heq]; exact ensureFreeSpace_onlyEvicted hr.coherent h }
  · have hsome : (r.ensureFreeSpace h).1 ≠ none := by
      rcases hwhy with hkind | hwhy
      · exact (returns_of_kind hr.coherent hkind h).some
      · rw [henough hwhy]
        exact Option.some_ne_none _
    rw [heq]
    rcases hroom : (r.ensureFreeSpace h).1 with _ | _ | _
    · exact absurd hroom hsome
    · exact ⟨_, rfl⟩
    · exact ⟨_, rfl⟩

/-- At a watermark of two pages nothing is lacking, and a row without bytes changes nothing. -/
theorem reached_rejected_two_pages :
    ∃ r h, Reached r ∧ Rejected r 0 h
      ∧ r.insertRow 0 h = (some (.error .emptyRow), r, h) := by
  let all := Binary64.ofRatio false 1 1
  have hrejected := reached_rejected (twoFullPages_reached all) (Or.inl (rfl : (0 : UInt32) = 0))
    (twoFullPages all).2
  exact ⟨(twoFullPages all).1, (twoFullPages all).2, twoFullPages_reached all, hrejected,
    hrejected.unchanged (Or.inr (Or.inl (by decide +kernel)))⟩

/-- **A row that is refused can cost a page with all of its rows.** -/
theorem insertRow_evicts_for_impossible_rows :
    ∃ r h, Reached r ∧ r.store.memory.pageSize = 4194280
      ∧ r.freeList.pages = [⟨⟨0, 1⟩, 4194280, 1⟩, ⟨⟨0, 0⟩, 4194280, 1⟩] ∧ r.freeList.pool = []
      ∧ ∀ row ∈ [0, 4194281], (r.insertRow row h).1 = some (.error (r.sizeFault row))
          ∧ (r.insertRow row h).2.1.freeList.pages = [⟨⟨0, 1⟩, 4194280, 1⟩]
          ∧ (r.insertRow row h).2.1.freeList.pool = [⟨0, 0⟩] := by
  let half := Binary64.ofRatio false 1 2
  exact ⟨(twoFullPages half).1, (twoFullPages half).2, twoFullPages_reached half,
    by decide +kernel, by decide +kernel, by decide +kernel,
    List.forall_iff_forall_mem.mp (by decide +kernel)⟩

end Region
end PageRegions
