import PageRegions.Proofs.FreeList.LiveRows
import PageRegions.Proofs.Memory.Onward
import PageRegions.Proofs.Options.Reserve
import PageRegions.Proofs.Region.MakingRoom
import PageRegions.Proofs.Region.Placing

/-!
# Rows are lost only when room is made

The rows of a region are those that were placed and neither removed nor lost. `rowsAfter` says so
for one call, and `Booked` for all calls of clients who remove only rows that are there. The free
list accounts for those rows and for nothing else.

A row is lost when its page is evicted, and that is written down as it happens: `losses` makes room
as a region does, and notes of each eviction the victim and the region as it was just before
(`Loss`). Whatever a tracker does with pages that are stale or touched again, it evicts no page by
itself, and no other call evicts one. So nothing is lost where nothing may be evicted.

Clients may touch pages that hold no rows, and hosts may do as they like with memory. All that is
needed of memory is that a page which is allocated is new to the free list, and that follows from
memory never going back (`Onward`), whatever the size of a page.
-/

set_option autoImplicit false

namespace PageRegions

/-! ## Making room with a log -/

namespace Supply

variable {σ τ : Type}

/-- A supply that writes down what is to be seen before each eviction. -/
def logged (v : Supply σ) (seen : σ → List τ) : Supply (σ × List τ) where
  loaded := fun s => v.loaded s.1
  pooled := fun s => v.pooled s.1
  evict := fun s => ((v.evict s.1).1, ((v.evict s.1).2, s.2 ++ seen s.1))

/-- The log changes nothing. -/
theorem makeRoom_logged (v : Supply σ) (seen : σ → List τ) (watermark : Binary64)
    (target : UInt64) (s : σ) (log : List τ) :
    ((v.logged seen).makeRoom watermark target (s, log)).2.1
      = (v.makeRoom watermark target s).2 := by
  fun_induction v.makeRoom watermark target s generalizing log with
  | case1 s hshort fault t hev =>
    have hlogged : (v.logged seen).evict (s, log) = (.error fault, (t, log ++ seen s)) := by
      simp only [logged, hev]
    have hsame : (v.logged seen).isShort watermark target (s, log) = true := hshort
    rw [makeRoom_of_error hsame hlogged]
  | case2 s hshort t hev hlt ih =>
    have hlogged : (v.logged seen).evict (s, log) = (.ok (), (t, log ++ seen s)) := by
      simp only [logged, hev]
    have hsame : (v.logged seen).isShort watermark target (s, log) = true := hshort
    rw [makeRoom_of_ok hsame hlogged hlt]
    exact ih _
  | case3 s hshort t hev hnot =>
    have hlogged : (v.logged seen).evict (s, log) = (.ok (), (t, log ++ seen s)) := by
      simp only [logged, hev]
    have hsame : (v.logged seen).isShort watermark target (s, log) = true := hshort
    have hnot' : ¬(v.logged seen).pooled (s, log) < (v.logged seen).pooled (t, log ++ seen s) :=
      hnot
    rw [makeRoom, dif_pos hsame]
    simp only [hlogged, dif_neg hnot']
  | case4 s hshort =>
    have hsame : (v.logged seen).isShort watermark target (s, log) = false :=
      Bool.eq_false_iff.mpr hshort
    rw [makeRoom_of_enough hsame]

end Supply

namespace LiveRows

/-- The rows once one was placed, if it was. -/
def placing (rows : LiveRows) (row : UInt32) : Except Fault PageId → LiveRows
  | .ok page => rows.place page row
  | .error _ => rows

end LiveRows

namespace Region

/-- The loss of all rows of a page: the region as it was just before, and the page. -/
structure Loss where
  before : Region
  victim : PageId

/-- The loss that evicting a page is, if the tracker picks one. -/
def losing (r : Region) (h : Host) : List Loss :=
  match (r.tracker.evict r.freeList h).1 with
  | .ok (some victim) => [⟨r, victim⟩]
  | _ => []

/-- The pages of a region on its host, with all losses written down. -/
def loggedSupply : Supply ((Region × Host) × List Loss) := supply.logged fun s => losing s.1 s.2

/-- What is lost when room is made, in order. -/
def losses (r : Region) (h : Host) : List Loss :=
  if r.options.evicts r.persistence then
    (loggedSupply.makeRoom r.watermark r.options.poolTarget ((r, h), [])).2.2
  else []

/-- What a call that uses pages for rows loses. -/
def lossesOf (r : Region) (h : Host) : RegionCall → List Loss
  | .insert _ | .ensure => r.losses h
  | _ => []

/-- The pages whose rows are lost. -/
def victims (losses : List Loss) : List PageId := losses.map (·.victim)

@[simp] theorem victims_nil : victims [] = [] := rfl

/-- The rows after a call, if those before it are given. -/
def rowsAfter (r : Region) (h : Host) (rows : LiveRows) (c : RegionCall) : LiveRows :=
  let kept := rows.without (victims (r.lossesOf h c))
  match c with
  | .insert row => ((r.insertRow row h).1.map (kept.placing row)).getD kept
  | .remove page row => kept.remove page row
  | _ => kept

/-- What clients ask for who remove only rows that are there. They may touch any page. -/
inductive RowsCall (rows : LiveRows) : RegionCall → Prop
  | insert (row : UInt32) : RowsCall rows (.insert row)
  | remove (page : PageId) (row : UInt32) (live : row ∈ rows page) : RowsCall rows (.remove page row)
  | ensure : RowsCall rows .ensure
  | touch (page : PageId) : RowsCall rows (.touch page)

/-- Regions before their first use, started and stopped at will. -/
inductive Unused : Region → Prop
  | fresh (now : UInt64) (o : RegionOptions) (pageSize : UInt32) (isDefault persistence : Bool)
      (kind : TrackerKind) (backing : Backing) (hasDirectory : Bool) :
      Unused (fresh now o pageSize isDefault persistence kind backing hasDirectory)
  | start (h : Host) {r : Region} (before : Unused r) : Unused (r.start h).2.1
  | stop (h : Host) {r : Region} (before : Unused r) : Unused (r.stop h).2.1

/-- The regions that such calls lead to, each with its host and its rows. -/
inductive Booked : Region → Host → LiveRows → Prop
  | unused {r : Region} (h : Host) (unused : Unused r) : Booked r h LiveRows.none
  | call (c : RegionCall) {r : Region} {h : Host} {rows : LiveRows} (before : Booked r h rows)
      (live : RowsCall rows c) :
      Booked (r.perform h c).2.1 (r.perform h c).2.2 (r.rowsAfter h rows c)
  | outside (k : Host) {r : Region} {h : Host} {rows : LiveRows} (before : Booked r h rows) :
      Booked r k rows

/-! ## The invariant -/

/-- The free list accounts for the rows, and has no page that memory may hand out. -/
structure Accounts (r : Region) (rows : LiveRows) : Prop where
  list : r.freeList.Inv
  tallies : r.freeList.Tallies rows
  memory : r.store.memory.Onward
  passed : ∀ page, r.freeList.holds page = true ∨ page ∈ r.freeList.pool →
    r.store.memory.Passed page
  coherent : r.tracker.Coherent

variable {r : Region} {rows : LiveRows}

/-- Losing a page moves it to the pool, with no rows. -/
theorem Accounts.evict (hr : r.Accounts rows) {page : PageId}
    (hholds : r.freeList.holds page = true) :
    (r.freeList.evict page).2.Inv ∧ (r.freeList.evict page).2.Tallies (rows.without [page])
      ∧ ∀ x, (r.freeList.evict page).2.holds x = true ∨ x ∈ (r.freeList.evict page).2.pool →
        r.store.memory.Passed x := by
  obtain ⟨p, hp, hid, hevict⟩ := FreeList.evict_of_holds hholds
  have htallies := hr.tallies.close p
  rw [hid] at htallies
  rw [hevict]
  refine ⟨hr.list.close hp, htallies, fun x hx => ?_⟩
  rw [FreeList.close_holds, FreeList.close_pool, hid, List.mem_cons, Bool.and_eq_true] at hx
  rcases hx with ⟨-, hx⟩ | rfl | hx
  · exact hr.passed x (Or.inl hx)
  · exact hr.passed x (Or.inl hholds)
  · exact hr.passed x (Or.inr hx)

/-- A region that evictions made of another: what they do not change. -/
structure SameButRows (r s : Region) : Prop where
  options : s.options = r.options
  persistence : s.persistence = r.persistence
  memory : s.store.memory = r.store.memory

theorem SameButRows.watermark {s : Region} (h : SameButRows r s) : s.watermark = r.watermark := by
  unfold Region.watermark
  rw [h.options, h.memory]

theorem Accounts.evictPage (hr : r.Accounts rows) (h : Host) :
    (r.evictPage h).2.1.Accounts (rows.without (victims (r.losing h)))
      ∧ SameButRows r (r.evictPage h).2.1
      ∧ ∀ loss ∈ r.losing h, loss.before = r ∧ r.freeList.holds loss.victim = true := by
  by_cases hkind : r.tracker.kind = .idle
  -- The idle tracker picks no page, and says that it succeeded.
  · have hidle := Tracker.eq_idle hkind
    have hnone : r.losing h = [] := by
      unfold losing
      rw [hidle]
      rfl
    have hsame : r.evictPage h = (.ok (), { r with tracker := .idle }, h) := by
      unfold Region.evictPage
      rw [hidle]
      rfl
    rw [hnone, hsame]
    refine ⟨?_, ⟨rfl, rfl, rfl⟩, List.forall_mem_nil _⟩
    rw [victims_nil, LiveRows.without_nil]
    exact ⟨hr.list, hr.tallies, hr.memory, hr.passed, trivial⟩
  · obtain ⟨result, t, f, drawn, heq, ht, hstarted, hk, hev⟩ :=
      hr.coherent.evict hkind r.freeList h
    unfold Region.evictPage losing
    rw [heq]
    cases hev with
    | evicted victim stale _ _ holds dropped empty perm =>
      have hf : f = (r.freeList.evict victim).2 := (congrArg Prod.snd dropped).symm
      subst hf
      obtain ⟨hlist, htallies, hpassed⟩ := hr.evict holds
      refine ⟨⟨hlist, htallies, hr.memory, hpassed, ht⟩, ⟨rfl, rfl, rfl⟩, fun loss hloss => ?_⟩
      rw [List.mem_singleton.mp hloss]
      exact ⟨rfl, holds⟩
    | refused fault stale _ cause empty perm why =>
      refine ⟨?_, ⟨rfl, rfl, rfl⟩, List.forall_mem_nil _⟩
      exact ⟨hr.list, hr.tallies, hr.memory, hr.passed, ht⟩

/-! ## Making room -/

/-- What is to be said of each loss: rows of the region were there, more pages were loaded than its
watermark allows, and fewer were pooled than it asks for, as both are counted. -/
structure Loss.UnderPressure (r : Region) (loss : Loss) : Prop where
  same : SameButRows r loss.before
  holds : loss.before.freeList.holds loss.victim = true
  overfull : loss.before.isOver = true
  short : loss.before.pooled < r.options.poolTarget

/-- What is known after some evictions of a run, with the losses so far. -/
structure Losing (r : Region) (rows : LiveRows) (s : (Region × Host) × List Loss) : Prop where
  accounts : s.1.1.Accounts (rows.without (victims s.2))
  same : SameButRows r s.1.1
  pressure : ∀ loss ∈ s.2, loss.UnderPressure r

/-- One eviction of the run. -/
theorem Losing.evict {s : (Region × Host) × List Loss} (hs : Losing r rows s)
    (hshort : loggedSupply.isShort r.watermark r.options.poolTarget s = true) :
    Losing r rows (loggedSupply.evict s).2 := by
  obtain ⟨⟨q, k⟩, log⟩ := s
  obtain ⟨haccounts, hsame, hlosing⟩ := hs.accounts.evictPage k
  have hunder : q.isOver = true ∧ q.pooled < q.options.poolTarget := by
    refine (isShort_iff (h := k)).mp ?_
    rw [hs.same.watermark, hs.same.options]
    exact hshort
  rw [← LiveRows.without_append] at haccounts
  refine {
    accounts := ?_
    same := ⟨hsame.options.trans hs.same.options, hsame.persistence.trans hs.same.persistence,
      hsame.memory.trans hs.same.memory⟩
    pressure := fun loss hloss => ?_ }
  · change (q.evictPage k).2.1.Accounts (rows.without (victims (log ++ losing q k)))
    rw [victims, List.map_append]
    exact haccounts
  · rcases List.mem_append.mp hloss with hold | hnew
    · exact hs.pressure loss hold
    · obtain ⟨hbefore, hholds⟩ := hlosing loss hnew
      exact {
        same := hbefore ▸ hs.same
        holds := hbefore ▸ hholds
        overfull := hbefore ▸ hunder.1
        short := by
          rw [hbefore, ← hs.same.options]
          exact hunder.2 }

/-- **What making room loses**: the accounts are those of the rows that are left, and each loss was
under pressure. -/
theorem Accounts.ensureFreeSpace (hr : r.Accounts rows) (h : Host) :
    (r.ensureFreeSpace h).2.1.Accounts (rows.without (victims (r.losses h)))
      ∧ ∀ loss ∈ r.losses h, loss.UnderPressure r ∧ r.options.evicts r.persistence = true := by
  unfold losses
  cases hevicts : r.options.evicts r.persistence with
  | false =>
    rw [ensureFreeSpace_of_not_evicts hevicts, if_neg Bool.false_ne_true]
    refine ⟨?_, List.forall_mem_nil _⟩
    rw [victims_nil, LiveRows.without_nil]
    exact hr
  | true =>
    have hfirst : Losing r rows ((r, h), []) := {
      accounts := by
        rw [victims_nil, LiveRows.without_nil]
        exact hr
      same := ⟨rfl, rfl, rfl⟩
      pressure := List.forall_mem_nil _ }
    have hlosing := Supply.makeRoom_keeps_short (fun s hs hshort => hs.evict hshort) hfirst
    obtain ⟨notes, heq, -⟩ := ensureFreeSpace_of_evicts hevicts (h := h) rfl
    have hsame : (loggedSupply.makeRoom r.watermark r.options.poolTarget ((r, h), [])).2.1
        = (r.makeRoom h).2 :=
      Supply.makeRoom_logged supply _ r.watermark r.options.poolTarget (r, h) []
    rw [heq, if_pos rfl]
    refine ⟨?_, fun loss hloss => ⟨hlosing.pressure loss hloss, rfl⟩⟩
    have haccounts := hlosing.accounts
    rw [hsame] at haccounts
    exact haccounts

/-! ## Placing a row -/

theorem Accounts.addRow (hr : r.Accounts rows) {page : PageId} {row : UInt32} (hpos : row ≠ 0)
    (hfits : row ≤ r.freeList.capacity) (hfound : r.freeList.findRoom? row = some page)
    {t : Tracker} (ht : t.Coherent) :
    ({ r with freeList := r.freeList.addRow page row, tracker := t } : Region).Accounts
      (rows.place page row) := by
  obtain ⟨p, hp, hroom⟩ := FreeList.findRoom?_fits hr.list hfits hfound
  refine ⟨hr.list.addRow hp hroom, hr.tallies.addRow hr.list hpos hp hroom, hr.memory,
    fun x hx => ?_, ht⟩
  change (r.freeList.addRow page row).holds x = true ∨ x ∈ (r.freeList.addRow page row).pool at hx
  rw [FreeList.addRow_holds hp, FreeList.addRow_pool] at hx
  exact hr.passed x hx

/-- A page that gets its first row: it must be new to the list, and memory must be past it. -/
theorem Accounts.openPage (hr : r.Accounts rows) {g : FreeList} {page : PageId} {row : UInt32}
    {store : MeteredMemory} {t : Tracker} (hpos : row ≠ 0) (hfits : row ≤ g.capacity)
    (hlist : g.Inv) (hpages : g.pages = r.freeList.pages)
    (hpool : ∀ x ∈ g.pool, x ∈ r.freeList.pool) (hnew : page ∉ g.pool)
    (hnone : r.freeList.page? page = none)
    (hmoved : PageMemory.Moved r.store.memory store.memory) (hpassed : store.memory.Passed page)
    (ht : t.Coherent) :
    ({ r with freeList := g.openPage page row, store := store, tracker := t } : Region).Accounts
      (rows.place page row) := by
  have hnone' : g.page? page = none := (FreeList.page?_congr hpages page).trans hnone
  refine ⟨hlist.openPage hnone' hnew hfits, (hr.tallies.congr hpages).openPage hpos hnone',
    hmoved.onward, fun x hx => ?_, ht⟩
  change (g.openPage page row).holds x = true ∨ x ∈ (g.openPage page row).pool at hx
  rw [FreeList.openPage_holds, FreeList.openPage_pool, Bool.or_eq_true, decide_eq_true_iff] at hx
  rcases hx with (rfl | hholds) | hmem
  · exact hpassed
  · rw [FreeList.holds, FreeList.page?_congr hpages] at hholds
    exact hmoved.passed x (hr.passed x (Or.inl hholds))
  · exact hmoved.passed x (hr.passed x (Or.inr (hpool x hmem)))

/-- Memory may move on without a page being placed. -/
theorem Accounts.withStore (hr : r.Accounts rows) {store : MeteredMemory}
    (hmoved : PageMemory.Moved r.store.memory store.memory) :
    ({ r with store := store } : Region).Accounts rows :=
  ⟨hr.list, hr.tallies, hmoved.onward, fun x hx => hmoved.passed x (hr.passed x hx), hr.coherent⟩

theorem Accounts.placeRow (hr : r.Accounts rows) (row : UInt32) (h : Host) :
    (r.placeRow row h).2.1.Accounts (rows.placing row (r.placeRow row h).1) := by
  have hins := FreeList.insertRow_insertion
    (fun s : MeteredMemory × Host => s.1.allocate s.2) r.freeList row (r.store, h)
  obtain ⟨metrics, hmetered⟩ := metered_allocate r.store h
  obtain ⟨hmoved, hfound⟩ := hr.memory.allocate h
  unfold Region.placeRow
  generalize r.freeList.insertRow _ row (r.store, h) = out at hins
  generalize r.store.memory.allocate h = allocation at hmetered hmoved hfound
  obtain ⟨result, m, k⟩ := allocation
  cases hins with
  | refused => exact hr
  | added page hpos hfits hroom => exact hr.addRow hpos hfits hroom (hr.coherent.touch page h.now)
  | reopened page g hpos hfits _ hpopped =>
    obtain ⟨hg, hpage, hpool, hpages, hcapacity⟩ := hr.list.popPool hpopped
    have hmem : page ∈ r.freeList.pool := hpool ▸ List.mem_cons_self
    exact hr.openPage hpos (hcapacity ▸ hfits) hg hpages
      (fun x hx => hpool ▸ List.mem_cons_of_mem page hx) hpage (hr.list.apart page hmem)
      ⟨hr.memory, fun _ hx => hx⟩ (hr.passed page (Or.inr hmem)) (hr.coherent.touch page h.now)
  | opened page t hpos hfits _ hempty hallocated =>
    have hasked : r.store.allocate h = (.ok page, t) := hallocated
    rw [hmetered] at hasked
    cases hasked
    obtain ⟨hnew, hpassed⟩ := hfound page rfl
    -- What memory was not past, the free list cannot have.
    have hnone : r.freeList.page? page = none := by
      refine Option.eq_none_iff_forall_ne_some.mpr fun p hp => hnew ?_
      exact hr.passed page (Or.inl (FreeList.holds_iff.mpr ⟨p, hp⟩))
    exact hr.openPage hpos hfits hr.list rfl (fun x hx => hx) (by simp [hempty]) hnone hmoved hpassed
      (hr.coherent.touch page k.now)
  | unplaced fault t _ _ _ _ hfailed =>
    have hasked : r.store.allocate h = (.error fault, t) := hfailed
    rw [hmetered] at hasked
    cases hasked
    exact hr.withStore hmoved

/-! ## One call -/

theorem Accounts.insertRow (hr : r.Accounts rows) (row : UInt32) (h : Host) :
    (r.insertRow row h).2.1.Accounts (r.rowsAfter h rows (.insert row)) := by
  have hroom := (hr.ensureFreeSpace h).1
  unfold rowsAfter lossesOf Region.insertRow
  simp only
  generalize r.ensureFreeSpace h = out at hroom
  obtain ⟨_ | _ | _, s, k⟩ := out
  · exact hroom
  · exact hroom
  · exact hroom.placeRow row k

theorem Accounts.removeRow (hr : r.Accounts rows) {page : PageId} {row : UInt32}
    (hlive : row ∈ rows page) :
    (r.removeRow page row).1 = .ok () ∧ (r.removeRow page row).2.Accounts (rows.remove page row) := by
  obtain ⟨hok, hlist, htallies⟩ := hr.tallies.removeRow hr.list hlive
  have hrem := r.freeList.removeRow_removal page row
  unfold Region.removeRow
  generalize r.freeList.removeRow page row = out at hok hlist htallies hrem
  cases hrem with
  | refused => cases hok
  | emptied p found =>
    refine ⟨rfl, hlist, htallies, hr.memory, fun x hx => ?_,
      (hr.coherent.forget (r.freeList.close p) page).1⟩
    have hholds : r.freeList.holds page = true := FreeList.holds_iff.mpr ⟨p, found⟩
    change (r.freeList.close p).holds x = true ∨ x ∈ (r.freeList.close p).pool at hx
    rw [FreeList.close_holds, FreeList.close_pool, FreeList.page?_id found, List.mem_cons,
      Bool.and_eq_true] at hx
    rcases hx with ⟨-, hx⟩ | rfl | hx
    · exact hr.passed x (Or.inl hx)
    · exact hr.passed x (Or.inl hholds)
    · exact hr.passed x (Or.inr hx)
  | kept p found =>
    refine ⟨rfl, hlist, htallies, hr.memory, fun x hx => ?_, hr.coherent⟩
    change (r.freeList.lessen p row).holds x = true ∨ x ∈ (r.freeList.lessen p row).pool at hx
    rw [FreeList.lessen_holds found, FreeList.lessen_pool] at hx
    exact hr.passed x hx

/-- **What one call preserves.** -/
theorem Accounts.perform (hr : r.Accounts rows) (h : Host) {c : RegionCall}
    (hc : RowsCall rows c) : (r.perform h c).2.1.Accounts (r.rowsAfter h rows c) := by
  have hnothing : rows.without (victims []) = rows := LiveRows.without_nil
  cases hc with
  | insert row => exact hr.insertRow row h
  | ensure => exact (hr.ensureFreeSpace h).1
  | remove page row hlive =>
    unfold rowsAfter lossesOf
    rw [hnothing]
    exact (hr.removeRow hlive).2
  | touch page =>
    unfold rowsAfter lossesOf
    rw [hnothing]
    exact ⟨hr.list, hr.tallies, hr.memory, hr.passed, hr.coherent.touch page h.now⟩

/-! ## All calls -/

theorem stop_parts (r : Region) (h : Host) : (r.stop h).2.1.freeList = r.freeList
    ∧ ((r.stop h).2.1.store.memory = r.store.memory
      ∨ (r.stop h).2.1.store.memory = (r.store.memory.stop h).2.1) := by
  unfold Region.stop MeteredMemory.stop
  split
  · exact ⟨rfl, Or.inl rfl⟩
  · exact ⟨rfl, Or.inr rfl⟩

theorem Unused.reached (hr : Unused r) : Reached r := by
  induction hr with
  | fresh => exact .fresh ..
  | start h _ ih => exact .call .start h ih
  | stop h _ ih => exact .call .stop h ih

theorem Unused.freeList (hr : Unused r) :
    ∃ region capacity, r.freeList = FreeList.fresh region capacity := by
  induction hr with
  | fresh now o pageSize => exact ⟨o.name, pageSize, rfl⟩
  | @start h r _ ih =>
    rw [(r.start_parts h).1]
    exact ih
  | @stop h r _ ih =>
    rw [(r.stop_parts h).1]
    exact ih

theorem Unused.memory (hr : Unused r) : r.store.memory.Onward ∧ r.store.memory.Cleared := by
  induction hr with
  | fresh now o pageSize _ _ _ backing =>
    exact ⟨PageMemory.onward_fresh o pageSize backing, fun _ => rfl⟩
  | @start h r _ ih =>
    rw [(r.start_parts h).2.1]
    exact ih.1.start ih.2 h
  | @stop h r _ ih =>
    rcases (r.stop_parts h).2 with hsame | hstopped
    · rw [hsame]
      exact ih
    · rw [hstopped]
      exact ih.1.stop ih.2 h

/-- A region that was never used has no pages, wherever its memory stands. -/
theorem Unused.accounts (hr : Unused r) : r.Accounts LiveRows.none := by
  obtain ⟨region, capacity, hlist⟩ := hr.freeList
  refine ⟨?_, ?_, hr.memory.1, fun page hpage => ?_, hr.reached.coherent⟩
  · rw [hlist]
    exact FreeList.inv_fresh region capacity
  · rw [hlist]
    exact FreeList.tallies_fresh region capacity
  · rw [hlist] at hpage
    rcases hpage with hholds | hmem
    · cases hholds
    · cases hmem

/-- **What every run preserves.** -/
theorem Booked.accounts {h : Host} (hr : Booked r h rows) : r.Accounts rows := by
  induction hr with
  | unused _ hunused => exact hunused.accounts
  | call c _ hlive ih => exact ih.perform _ hlive
  | outside _ _ ih => exact ih

/-- What a call can be said to lose or keep, of a region and its rows before it. -/
structure Kept (r : Region) (h : Host) (rows : LiveRows) (c : RegionCall) : Prop where
  /-- A row that is there can be removed. -/
  removed : ∀ page row, c = .remove page row → (r.perform h c).1 = some (.ok ())
  /-- A page that is not evicted loses no row but one that is removed from it. -/
  kept : ∀ page, page ∉ victims (r.lossesOf h c) → rows page ≤ r.rowsAfter h rows c page
    ∨ ∃ row, c = .remove page row ∧ r.rowsAfter h rows c page = (rows page).erase row
  /-- A page is evicted only where pages may be, and under pressure. -/
  pressure : ∀ loss ∈ r.lossesOf h c, r.persistence = false ∧ r.options.mode ≠ .disabled
    ∧ loss.UnderPressure r ∧ (0 ≤ r.options.poolSize.toInt →
      (loss.before.pooled.toNat : Int) < r.options.poolSize.toInt)
  /-- Where none may be, nothing is lost. -/
  safe : r.persistence = true ∨ r.options.mode = .disabled → r.lossesOf h c = []

theorem evicts_iff {o : RegionOptions} {persistence : Bool} :
    o.evicts persistence = true ↔ persistence = false ∧ o.mode ≠ .disabled := by
  unfold RegionOptions.evicts
  rw [Bool.and_eq_true, Bool.not_eq_true', decide_eq_true_iff]

/-- The losses of a call are those of making room, if it has any. -/
theorem mem_lossesOf {h : Host} {c : RegionCall} {loss : Loss} (hloss : loss ∈ r.lossesOf h c) :
    loss ∈ r.losses h := by
  cases c with
  | insert | ensure => exact hloss
  | start | stop | evict | remove | dropRows | touch | allocate | free | recycle | take | measure =>
    exact absurd hloss List.not_mem_nil

theorem rowsAfter_kept {h : Host} {c : RegionCall} (hc : RowsCall rows c) {page : PageId}
    (hpage : page ∉ victims (r.lossesOf h c)) : rows page ≤ r.rowsAfter h rows c page
      ∨ ∃ row, c = .remove page row ∧ r.rowsAfter h rows c page = (rows page).erase row := by
  have hkept : rows.without (victims (r.lossesOf h c)) page = rows page :=
    LiveRows.without_of_notMem hpage
  cases hc with
  | ensure | touch => exact Or.inl hkept.symm.le
  | insert row =>
    refine Or.inl ?_
    unfold rowsAfter
    simp only
    rcases (r.insertRow row h).1 with _ | _ | x
    · exact hkept.symm.le
    · exact hkept.symm.le
    · change rows page ≤ LiveRows.place _ x row page
      by_cases hx : page = x
      · rw [← hx, LiveRows.place_self, hkept]
        exact Multiset.le_cons_self _ _
      · rw [LiveRows.place_other hx, hkept]
  | remove x row =>
    unfold rowsAfter
    simp only
    by_cases hx : page = x
    · subst hx
      refine Or.inr ⟨row, rfl, ?_⟩
      rw [LiveRows.remove_self, hkept]
    · refine Or.inl ?_
      rw [LiveRows.remove_other hx, hkept]

/-- **Rows are lost only under pressure.** Whatever clients do who remove only rows that are there,
the free list accounts for the rows that were placed and neither removed nor lost, page by page and
altogether. A call loses rows only by evicting their page to make room, from a region that evicts,
when more pages are loaded than its watermark allows and fewer are pooled than it asks for. -/
theorem booked_rows {h : Host} (hr : Booked r h rows) :
    r.freeList.Tallies rows
      ∧ r.freeList.used = UInt64.ofNat (r.freeList.pages.map fun p => rows.bytes p.id).sum
      ∧ ∀ c, RowsCall rows c → r.Kept h rows c := by
  have haccounts := hr.accounts
  have hpressure : ∀ loss ∈ r.losses h, loss.UnderPressure r ∧ _ :=
    (haccounts.ensureFreeSpace h).2
  refine ⟨haccounts.tallies, ?_, fun c hc => ?_⟩
  · rw [haccounts.list.used_eq, haccounts.tallies.usedBytes_eq haccounts.list]
  · refine {
      removed := fun page row hremove => ?_
      kept := fun page hpage => rowsAfter_kept hc hpage
      pressure := fun loss hloss => ?_
      safe := fun hsafe => ?_ }
    · subst hremove
      cases hc with
      | remove _ _ hlive => exact congrArg some (haccounts.removeRow hlive).1
    · obtain ⟨hunder, hevicts⟩ := hpressure loss (mem_lossesOf hloss)
      obtain ⟨hpersistence, hmode⟩ := evicts_iff.mp hevicts
      refine ⟨hpersistence, hmode, hunder, fun hpos => ?_⟩
      rw [← RegionOptions.poolTarget_toNat hpos, Int.ofNat_lt]
      exact UInt64.lt_iff_toNat_lt.mp hunder.short
    · refine List.eq_nil_iff_forall_not_mem.mpr fun loss hloss => ?_
      obtain ⟨hpersistence, hmode⟩ := evicts_iff.mp (hpressure loss (mem_lossesOf hloss)).2
      rcases hsafe with hsafe | hsafe
      · rw [hsafe] at hpersistence
        cases hpersistence
      · exact hmode hsafe

/-- Of two full pages, above a watermark of one, the first is lost when room is made, and the row of
the second is kept. -/
theorem booked_rows_two_pages :
    ∃ (r : Region) (h : Host) (rows : LiveRows), r.freeList.Tallies rows
      ∧ victims (r.lossesOf h .ensure) = [⟨0, 0⟩]
      ∧ r.rowsAfter h rows .ensure ⟨0, 0⟩ = 0
      ∧ r.rowsAfter h rows .ensure ⟨0, 1⟩ = {4194280}
      ∧ r.Kept h rows .ensure
      ∧ (r.perform h (.remove ⟨0, 1⟩ 4194280)).1 = some (.ok ()) := by
  let half := Binary64.ofRatio false 1 2
  let started := (fresh 0 (tenMiB half) 4194280 false false .fairQueue .anonymous false).start
    (Host.fresh ⟨[], []⟩ fun _ => 0)
  have hunused : Unused started.2.1 := .start _ (.fresh ..)
  have hbooked := ((Booked.unused started.2.2 hunused).call (.insert 4194280)
    (.insert 4194280)).call (.insert 4194280) (.insert 4194280)
  obtain ⟨htallies, -, hcalls⟩ := booked_rows hbooked
  refine ⟨_, _, _, htallies, by decide +kernel, by decide +kernel, by decide +kernel,
    hcalls .ensure .ensure, ?_⟩
  exact (hcalls (.remove ⟨0, 1⟩ 4194280) (.remove _ _ (by decide +kernel))).removed _ _ rfl

end Region
end PageRegions
