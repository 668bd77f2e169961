import Mathlib.Logic.Function.Basic
import Mathlib.Logic.Relation
import PageRegions.Proofs.FreeList.Operations
import PageRegions.Proofs.Region.MakingRoom
import PageRegions.Proofs.Tracker.Attempts

/-!
# Clients that interleave

The free list and the tracker of a region are each guarded, but not by one guard. Clients who place
and remove rows at the same time interleave at the points where they pass from one to the other: a
row is placed and later its page touched, a page is emptied and later forgotten. Only forgetting and
evicting ask the free list with the guard of the tracker in hand, so that the tracker stands still
while they do. The free list does not: a page that was just seen to be empty may have rows again
before the tracker drops it.

A `Phase` says how far one client has come, an `Act` what it does next, and a `System` is the region
with all of its clients. What a client decides from counts that it read at different times, namely
whether to make room and how often to try, is left open here, and so is what anyone else does to
the host. That a client who is alone does what the operations of a region do is shown elsewhere.

The question is whether a page with rows can be lost by the tracker, and so never be evicted. There
are two ways to be untracked for a while. A client that has placed a row has still to touch the page
(it owes that). And the queue gives a victim up before its rows are dropped; the guard is held
meanwhile. Neither is left when no client is at work (`tracked_of_idle`).
-/

set_option autoImplicit false

namespace PageRegions

/-- How far a client has come. Those who evict do so to place a row. -/
inductive Phase where
  | idle
  /-- Makes room, and then places the row. -/
  | placing (row : UInt32)
  /-- Room is lacking, and the guard of the tracker has to be got. -/
  | lacking (row : UInt32)
  /-- Has the guard, and chooses a victim next. -/
  | evicting (row : UInt32)
  /-- Has the guard and a victim, whose rows are to be dropped. -/
  | dropping (row : UInt32) (victim : PageId)
  /-- Has the guard; the victim is to be taken out. Its rows were dropped, or it had none. -/
  | leaving (row : UInt32) (victim : PageId) (dropped : Bool)
  /-- The row was placed, and its page is to be touched. -/
  | touching (page : PageId)
  /-- The page was emptied, and is to be forgotten. -/
  | forgetting (page : PageId)
  /-- Has the guard, and saw that the page holds no rows. It is to be taken out. -/
  | unlisting (page : PageId)
  deriving DecidableEq, Repr

namespace Phase

/-- Whether the guard of the tracker is held. -/
def hasTracker : Phase → Bool
  | .evicting _ | .dropping .. | .leaving .. | .unlisting _ => true
  | _ => false

/-- Whether the guard of the tracker has to be got for the next step. -/
def waits : Phase → Bool
  | .lacking _ | .touching _ | .forgetting _ => true
  | _ => false

/-- The page that will be taken out of the tracker next. -/
def removes? : Phase → Option PageId
  | .leaving _ victim _ => some victim
  | .unlisting page => some page
  | _ => none

theorem hasTracker_of_removes {p : Phase} {page : PageId} (h : p.removes? = some page) :
    p.hasTracker = true := by
  cases p <;> cases h <;> rfl

end Phase

namespace Region

/-! ## Steps of the free list -/

/-- Places a row, without telling the tracker. -/
def place (r : Region) (row : UInt32) (h : Host) : Except Fault PageId × Region × Host :=
  let (result, freeList, store, h) :=
    r.freeList.insertRow (fun s : MeteredMemory × Host => s.1.allocate s.2) row (r.store, h)
  (result, { r with freeList := freeList, store := store }, h)

/-- Removes a row, without telling the tracker: whether it was the last. -/
def withdraw (r : Region) (page : PageId) (row : UInt32) : Except Fault Bool × Region :=
  let (result, freeList) := r.freeList.removeRow page row
  (result, { r with freeList := freeList })

/-- Drops the rows of a victim. -/
def dropVictim (r : Region) (victim : PageId) (h : Host) : Except Fault Unit × Region :=
  match r.freeList.evict victim with
  | (.ok (), freeList) =>
    (.ok (), { r with
      freeList := freeList
      store := { r.store with metrics := r.store.metrics.countEviction h.now } })
  | (.error fault, freeList) => (.error fault, { r with freeList := freeList })

/-- A row that is placed is on the page that is named, and no other page gets any. -/
theorem holds_place {r : Region} {row : UInt32} {h : Host} {x : PageId}
    (hholds : (r.place row h).2.1.freeList.holds x = true) :
    r.freeList.holds x = true ∨ (r.place row h).1 = .ok x := by
  have hins := FreeList.insertRow_insertion
    (fun s : MeteredMemory × Host => s.1.allocate s.2) r.freeList row (r.store, h)
  unfold place at hholds ⊢
  generalize r.freeList.insertRow _ row (r.store, h) = out at hins hholds
  cases hins with
  | refused | unplaced => exact Or.inl hholds
  | added page =>
    change (r.freeList.addRow page row).holds x = true at hholds
    by_cases hx : x = page
    · exact Or.inr (by rw [hx])
    · rw [FreeList.addRow_holds_other hx] at hholds
      exact Or.inl hholds
  | reopened page g _ _ _ popped =>
    change (g.openPage page row).holds x = true at hholds
    rw [FreeList.openPage_holds, FreeList.holds, FreeList.page?_congr (FreeList.popPool_pages popped),
      Bool.or_eq_true, decide_eq_true_iff] at hholds
    exact hholds.symm.imp_right fun hx => by rw [hx]
  | opened page =>
    change (r.freeList.openPage page row).holds x = true at hholds
    rw [FreeList.openPage_holds, Bool.or_eq_true, decide_eq_true_iff] at hholds
    exact hholds.symm.imp_right fun hx => by rw [hx]

theorem holds_withdraw {r : Region} {page : PageId} {row : UInt32} {x : PageId}
    (hholds : (r.withdraw page row).2.freeList.holds x = true) : r.freeList.holds x = true := by
  have hrem := FreeList.removeRow_removal r.freeList page row
  unfold withdraw at hholds
  generalize r.freeList.removeRow page row = out at hrem hholds
  cases hrem with
  | refused => exact hholds
  | emptied p =>
    change (r.freeList.close p).holds x = true at hholds
    rw [FreeList.close_holds, Bool.and_eq_true] at hholds
    exact hholds.2
  | kept p found =>
    change (r.freeList.lessen p row).holds x = true at hholds
    rw [FreeList.lessen_holds found] at hholds
    exact hholds

/-- A victim holds no rows afterwards, whether any were dropped or not. -/
theorem holds_dropVictim {r : Region} {victim : PageId} {h : Host} {x : PageId} :
    (r.dropVictim victim h).2.freeList.holds x
      = (decide (x ≠ victim) && r.freeList.holds x) := by
  unfold dropVictim
  rcases r.freeList.evict_cases victim with ⟨p, hp, heq⟩ | ⟨hnone, heq⟩
  · simp only [heq, FreeList.close_holds, FreeList.page?_id hp]
  · simp only [heq]
    by_cases hx : x = victim
    · simp [hx, FreeList.holds, hnone]
    · simp [hx]

theorem dropVictim_tracker (r : Region) (victim : PageId) (h : Host) :
    (r.dropVictim victim h).2.tracker = r.tracker := by
  unfold dropVictim
  split <;> rfl

/-! ## Steps of a client -/

/-- What a client does between two of its phases, on the region and its host. -/
inductive Act (r : Region) (h : Host) : Phase → Phase → Region → Host → Prop
  | ask (row : UInt32) : Act r h .idle (.placing row) r h
  | lack (row : UInt32) : Act r h (.placing row) (.lacking row) r h
  | seize (row : UInt32) : Act r h (.lacking row) (.evicting row) r h
  /-- There is no victim, or too many had no rows. -/
  | giveUp (row : UInt32) : Act r h (.evicting row) .idle r h
  | choose (row : UInt32) (victim : PageId) (chosen : (r.tracker.choose h).1 = some victim) :
      Act r h (.evicting row) (.dropping row victim) (r.withTracker (r.tracker.choose h).2.1)
        (r.tracker.choose h).2.2
  | drop (row : UInt32) (victim : PageId) (dropped : (r.dropVictim victim h).1 = .ok ()) :
      Act r h (.dropping row victim) (.leaving row victim true) (r.dropVictim victim h).2 h
  /-- The victim had no rows. -/
  | miss (row : UInt32) (victim : PageId) (fault : Fault)
      (denied : (r.dropVictim victim h).1 = .error fault) (absent : fault.kind = .notFound) :
      Act r h (.dropping row victim) (.leaving row victim false) (r.dropVictim victim h).2 h
  | fail (row : UInt32) (victim : PageId) (fault : Fault)
      (denied : (r.dropVictim victim h).1 = .error fault) (other : fault.kind ≠ .notFound) :
      Act r h (.dropping row victim) .idle (r.dropVictim victim h).2 h
  | evicted (row : UInt32) (victim : PageId) :
      Act r h (.leaving row victim true) (.placing row)
        (r.withTracker (r.tracker.settle victim)) h
  | again (row : UInt32) (victim : PageId) :
      Act r h (.leaving row victim false) (.evicting row)
        (r.withTracker (r.tracker.settle victim)) h
  | place (row : UInt32) (page : PageId) (placed : (r.place row h).1 = .ok page) :
      Act r h (.placing row) (.touching page) (r.place row h).2.1 (r.place row h).2.2
  | refuse (row : UInt32) (fault : Fault) (refused : (r.place row h).1 = .error fault) :
      Act r h (.placing row) .idle (r.place row h).2.1 (r.place row h).2.2
  /-- The time of the touch is read before the guard is got. -/
  | touch (page : PageId) (now : UInt64) :
      Act r h (.touching page) .idle (r.withTracker (r.tracker.touch page now)) h
  | remove (page : PageId) (row : UInt32) (more : (r.withdraw page row).1 ≠ .ok true) :
      Act r h .idle .idle (r.withdraw page row).2 h
  | empty (page : PageId) (row : UInt32) (last : (r.withdraw page row).1 = .ok true) :
      Act r h .idle (.forgetting page) (r.withdraw page row).2 h
  /-- The page got rows again. -/
  | spare (page : PageId) (holds : r.freeList.holds page = true) :
      Act r h (.forgetting page) .idle r h
  | doom (page : PageId) (empty : r.freeList.holds page = false) :
      Act r h (.forgetting page) (.unlisting page) r h
  | unlist (page : PageId) :
      Act r h (.unlisting page) .idle (r.withTracker (r.tracker.unlist page)) h

variable {r r' : Region} {h h' : Host} {p p' : Phase}

/-! What a step does, as far as it matters whether pages are tracked. -/

/-- The guard is held by those who held it and by those who waited for it. -/
theorem Act.hasTracker (hact : Act r h p p' r' h') (hp' : p'.hasTracker = true) :
    p.hasTracker = true ∨ p.waits = true := by
  cases hact <;> first | exact Or.inl rfl | exact Or.inr rfl | cases hp'

theorem place_tracker (r : Region) (row : UInt32) (h : Host) :
    (r.place row h).2.1.tracker = r.tracker := rfl

/-- A tracked page stays so, unless it is chosen or taken out. -/
theorem Act.tracked (hact : Act r h p p' r' h') (hr : r.tracker.Coherent)
    (hstarted : r.tracker.started = true) :
    r'.tracker.Coherent ∧ r'.tracker.started = true
      ∧ ∀ x ∈ r.tracker.pages,
        x ∈ r'.tracker.pages ∨ (∃ row, p' = .dropping row x) ∨ p.removes? = some x := by
  have hsame : ∀ s : Region, s.tracker = r.tracker → s.tracker.Coherent
      ∧ s.tracker.started = true ∧ ∀ x ∈ r.tracker.pages,
        x ∈ s.tracker.pages ∨ (∃ row, p' = .dropping row x) ∨ p.removes? = some x := by
    intro s hs
    rw [hs]
    exact ⟨hr, hstarted, fun x hx => Or.inl hx⟩
  cases hact with
  | ask | lack | seize | giveUp | spare | doom => exact hsame _ rfl
  | place | refuse => exact hsame _ (place_tracker _ _ _)
  | remove | empty => exact hsame _ rfl
  | drop | miss | fail => exact hsame _ (dropVictim_tracker _ _ _)
  | choose row victim chosen =>
    have hwithout := hr.choose chosen
    refine ⟨hwithout.coherent, hwithout.started.trans hstarted, fun x hx => ?_⟩
    by_cases hvictim : x = victim
    · exact Or.inr (Or.inl ⟨row, by rw [hvictim]⟩)
    · exact Or.inl (hwithout.kept x hx hvictim)
  | evicted row victim | again row victim =>
    have hwithout := hr.settle victim
    refine ⟨hwithout.coherent, hwithout.started.trans hstarted, fun x hx => ?_⟩
    by_cases hvictim : x = victim
    · exact Or.inr (Or.inr (by rw [hvictim]; rfl))
    · exact Or.inl (hwithout.kept x hx hvictim)
  | unlist page =>
    have hwithout := hr.unlist page
    refine ⟨hwithout.coherent, hwithout.started.trans hstarted, fun x hx => ?_⟩
    by_cases hpage : x = page
    · exact Or.inr (Or.inr (by rw [hpage]; rfl))
    · exact Or.inl (hwithout.kept x hx hpage)
  | touch page now =>
    refine ⟨hr.touch page now, (Tracker.touch_started _ _ _).trans hstarted, fun x hx => ?_⟩
    exact Or.inl ((hr.mem_touch hstarted).mpr (Or.inr hx))

/-- A page gets rows only from a client who will touch it. -/
theorem Act.holds (hact : Act r h p p' r' h') {x : PageId}
    (hholds : r'.freeList.holds x = true) :
    r.freeList.holds x = true ∨ p' = .touching x := by
  cases hact with
  | ask | lack | seize | giveUp | choose | evicted | again | touch | spare | doom | unlist =>
    exact Or.inl hholds
  | place row page placed =>
    refine (holds_place hholds).imp_right fun hpage => ?_
    rw [placed] at hpage
    cases hpage
    rfl
  | refuse row fault refused =>
    refine (holds_place hholds).imp_right fun hpage => ?_
    rw [refused] at hpage
    cases hpage
  | remove | empty => exact Or.inl (holds_withdraw hholds)
  | drop | miss | fail =>
    rw [holds_dropVictim, Bool.and_eq_true] at hholds
    exact Or.inl hholds.2

theorem Act.of_touching {page : PageId} (hact : Act r h (.touching page) p' r' h')
    (hr : r.tracker.Coherent) (hstarted : r.tracker.started = true) :
    page ∈ r'.tracker.pages := by
  cases hact
  exact (hr.mem_touch hstarted).mpr (Or.inl rfl)

theorem Act.of_dropping {row : UInt32} {victim : PageId}
    (hact : Act r h (.dropping row victim) p' r' h') : r'.freeList.holds victim = false := by
  cases hact <;> rw [holds_dropVictim] <;> simp

/-- What is to be taken out was empty when that was decided. -/
theorem Act.removes (hact : Act r h p p' r' h') {page : PageId}
    (hpage : p'.removes? = some page) : r'.freeList.holds page = false := by
  cases hact with
  | drop | miss =>
    cases hpage
    rw [holds_dropVictim]
    simp
  | doom page empty =>
    cases hpage
    exact empty
  | ask | lack | seize | giveUp | choose | fail | evicted | again | place | refuse | touch | remove
    | empty | spare | unlist => cases hpage

end Region

/-! ## All clients -/

/-- A region on its host, and its clients. -/
structure System (ι : Type) where
  region : Region
  host : Host
  phase : ι → Phase

namespace System

variable {ι : Type}

/-- What steps keep. -/
structure Safe (s : System ι) : Prop where
  coherent : s.region.tracker.Coherent
  started : s.region.tracker.started = true
  exclusive : ∀ i j, (s.phase i).hasTracker = true → (s.phase j).hasTracker = true → i = j
  /-- Who holds rows is tracked, or will be touched, or is about to lose them. -/
  tracked : ∀ page, s.region.freeList.holds page = true →
    page ∈ s.region.tracker.pages ∨ (∃ i, s.phase i = .touching page)
      ∨ ∃ i row, s.phase i = .dropping row page
  /-- Who is taken out although it holds rows again will be touched. -/
  owed : ∀ i page, (s.phase i).removes? = some page → s.region.freeList.holds page = true →
    ∃ j, s.phase j = .touching page

/-- No client has come to the region yet. -/
def initial (r : Region) (h : Host) : System ι := ⟨r, h, fun _ => .idle⟩

variable {s t : System ι}

/-- When no client is at work nothing is owed. -/
theorem Safe.tracked_of_idle (hs : s.Safe) (hidle : ∀ i, s.phase i = .idle) {page : PageId}
    (hholds : s.region.freeList.holds page = true) : page ∈ s.region.tracker.pages := by
  rcases hs.tracked page hholds with hin | ⟨i, hi⟩ | ⟨i, row, hi⟩
  · exact hin
  · rw [hidle i] at hi
    cases hi
  · rw [hidle i] at hi
    cases hi

/-- A region that has just been started has no rows that could be lost. -/
theorem safe_initial {now : UInt64} {o : RegionOptions} {pageSize : UInt32}
    {isDefault persistence : Bool} {kind : TrackerKind} {backing : Backing} {hasDirectory : Bool}
    (hkind : kind ≠ .idle) {host h : Host} {first : Region}
    (hstart : (Region.fresh now o pageSize isDefault persistence kind backing hasDirectory).start
      host = (.ok (), first, h)) : (initial first h : System ι).Safe := by
  have htracker : first.tracker = (Tracker.fresh kind).start
      ∧ first.freeList = FreeList.fresh o.name pageSize := by
    unfold Region.start Region.fresh at hstart
    simp only at hstart
    split at hstart
    · cases hstart
    · cases hstart
      exact ⟨rfl, rfl⟩
  obtain ⟨htracker, hlist⟩ := htracker
  refine { coherent := ?_, started := ?_, exclusive := ?_, tracked := ?_, owed := ?_ }
  · change first.tracker.Coherent
    rw [htracker]
    exact (Tracker.coherent_fresh kind).start
  · change first.tracker.started = true
    rw [htracker]
    cases kind with
    | idle => exact absurd rfl hkind
    | lru | lru2 | fairQueue => rfl
  · intro i j hi
    cases hi
  · intro page hholds
    change first.freeList.holds page = true at hholds
    rw [hlist] at hholds
    cases hholds
  · intro i page hi
    cases hi

variable [DecidableEq ι]

/-- One client takes a step, or the host changes. Who waits for the guard of the tracker gets it
when no one has it. -/
inductive Step : System ι → System ι → Prop
  | act {s : System ι} (i : ι) {p : Phase} {r : Region} {h : Host}
      (act : Region.Act s.region s.host (s.phase i) p r h)
      (turn : (s.phase i).waits = true → ∀ j, (s.phase j).hasTracker = false) :
      Step s ⟨r, h, Function.update s.phase i p⟩
  | outside {s : System ι} (k : Host) : Step s { s with host := k }

/-- Any number of steps, of whichever clients. -/
abbrev Steps : System ι → System ι → Prop := Relation.ReflTransGen Step

/-- The next step of a client who has come this far. -/
theorem Steps.act {first : System ι} (hsteps : Steps first s) (i : ι) {p p' : Phase} {r : Region}
    {h : Host} (hphase : s.phase i = p) (act : Region.Act s.region s.host p p' r h)
    (turn : p.waits = true → ∀ j, (s.phase j).hasTracker = false) :
    Steps first ⟨r, h, Function.update s.phase i p'⟩ := by
  subst hphase
  exact hsteps.tail (.act i act turn)

/-- **What one step preserves.** -/
theorem Safe.step (hs : s.Safe) (hstep : Step s t) : t.Safe := by
  cases hstep with
  | outside k => exact { hs with }
  | @act i p r h act turn =>
    obtain ⟨hcoherent, hstarted, hkept⟩ := act.tracked hs.coherent hs.started
    -- The phases of all others are what they were.
    have hself : Function.update s.phase i p i = p := Function.update_self i p s.phase
    have hother : ∀ j, j ≠ i → Function.update s.phase i p j = s.phase j := fun j hj =>
      Function.update_of_ne hj p s.phase
    refine ⟨hcoherent, hstarted, fun j k hj hk => ?_, fun page hholds => ?_,
      fun j page hj hholds => ?_⟩
    · -- Who has the guard now had it before or got it when no one had it.
      have hnone : p.hasTracker = true → ∀ k, k ≠ i → (s.phase k).hasTracker = true → False := by
        intro hp k hk hkhas
        rcases act.hasTracker hp with hhad | hwaited
        · exact hk (hs.exclusive k i hkhas hhad)
        · rw [turn hwaited k] at hkhas
          cases hkhas
      change (Function.update s.phase i p j).hasTracker = true at hj
      change (Function.update s.phase i p k).hasTracker = true at hk
      by_cases hji : j = i
      · by_cases hki : k = i
        · exact hji.trans hki.symm
        · rw [hji, hself] at hj
          rw [hother k hki] at hk
          exact (hnone hj k hki hk).elim
      · rw [hother j hji] at hj
        by_cases hki : k = i
        · rw [hki, hself] at hk
          exact (hnone hk j hji hj).elim
        · rw [hother k hki] at hk
          exact hs.exclusive j k hj hk
    · change r.freeList.holds page = true at hholds
      rcases act.holds hholds with hheld | hplaced
      · rcases hs.tracked page hheld with hin | ⟨j, hj⟩ | ⟨j, row, hj⟩
        · rcases hkept page hin with hstays | ⟨row, hchosen⟩ | htaken
          · exact Or.inl hstays
          · exact Or.inr (Or.inr ⟨i, row, hself.trans hchosen⟩)
          · -- It leaves the tracker with rows on it; so another client has yet to touch it.
            obtain ⟨j, hj⟩ := hs.owed i page htaken hheld
            have hji : j ≠ i := by
              rintro rfl
              rw [hj] at htaken
              cases htaken
            exact Or.inr (Or.inl ⟨j, (hother j hji).trans hj⟩)
        · by_cases hji : j = i
          · subst hji
            rw [hj] at act
            exact Or.inl (act.of_touching hs.coherent hs.started)
          · exact Or.inr (Or.inl ⟨j, (hother j hji).trans hj⟩)
        · by_cases hji : j = i
          · subst hji
            rw [hj] at act
            rw [act.of_dropping] at hholds
            cases hholds
          · exact Or.inr (Or.inr ⟨j, row, (hother j hji).trans hj⟩)
      · exact Or.inr (Or.inl ⟨i, hself.trans hplaced⟩)
    · change (Function.update s.phase i p j).removes? = some page at hj
      change r.freeList.holds page = true at hholds
      by_cases hji : j = i
      · rw [hji, hself] at hj
        rw [act.removes hj] at hholds
        cases hholds
      · rw [hother j hji] at hj
        rcases act.holds hholds with hheld | hplaced
        · obtain ⟨k, hk⟩ := hs.owed j page hj hheld
          by_cases hki : k = i
          · -- A touch now would need the guard, which the other client has.
            subst hki
            have hfree := turn (by rw [hk]; rfl) j
            rw [Phase.hasTracker_of_removes hj] at hfree
            cases hfree
          · exact ⟨k, (hother k hki).trans hk⟩
        · exact ⟨i, hself.trans hplaced⟩

/-- **What all steps preserve.** -/
theorem Safe.steps (hs : s.Safe) (hsteps : Steps s t) : t.Safe := by
  induction hsteps with
  | refl => exact hs
  | tail _ hstep ih => exact ih.step hstep

end System
end PageRegions
