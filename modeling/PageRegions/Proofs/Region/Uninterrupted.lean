import PageRegions.Proofs.Region.Calls
import PageRegions.Proofs.Region.Interleaving

/-!
# A client who is alone

Clients that interleave take steps, a region has operations. The two say the same where no one comes
in between: placing and removing a row as a region does it are sequences of steps of one client, who
finds the guard of the tracker free and is at no work before and after (`steps_insertRow`,
`steps_removeRow`). So the steps leave out nothing that a region does, although they leave open when
room is made and how often an eviction is tried. What holds however clients interleave, namely that
no page with rows is lost by the tracker, can therefore be said of the region and its operations
(`interleaved_tracked`).
-/

set_option autoImplicit false

namespace PageRegions

/-! ## Kinds of trackers do not change -/

namespace Tracker

theorem choose_kind (t : Tracker) (h : Host) : (t.choose h).2.1.kind = t.kind := by
  cases t with
  | idle => rfl
  | sampled t => rfl
  | queued t =>
    unfold choose
    cases hplaces : t.places with
    | nil => simp only [hplaces]
    | cons =>
      simp only [hplaces]
      rfl

theorem kind_ne_idle_of_started {t : Tracker} (hstarted : t.started = true) : t.kind ≠ .idle := by
  intro hkind
  cases t with
  | idle => cases hstarted
  | sampled t =>
    simp only [kind] at hkind
    split at hkind <;> cases hkind
  | queued t => cases hkind

theorem settle_kind (t : Tracker) (victim : PageId) : (t.settle victim).kind = t.kind := by
  cases t with
  | idle => rfl
  | sampled t => simp only [settle, kind, SampledTracker.remove_recency]
  | queued t => rfl

theorem Attempts.kind {σ : Type} [RowStore σ] {t t' : Tracker} {s s' : σ} {h h' : Host}
    {result : Except Fault PageId} (hattempts : Attempts t s h result t' s' h') :
    t'.kind = t.kind := by
  induction hattempts with
  | givenUp => rfl
  | evicted chosen _ =>
    rw [settle_kind]
    exact (congrArg (fun out => out.2.1.kind) chosen).symm.trans (choose_kind _ _)
  | failed chosen _ _ =>
    exact (congrArg (fun out => out.2.1.kind) chosen).symm.trans (choose_kind _ _)
  | again chosen _ _ _ ih =>
    rw [ih, settle_kind]
    exact (congrArg (fun out => out.2.1.kind) chosen).symm.trans (choose_kind _ _)

end Tracker

/-! ## Placing a row is to place it and to touch its page -/

namespace Region

variable {r : Region} {row : UInt32} {h : Host}

theorem placeRow_of_ok {page : PageId} (hplace : (r.place row h).1 = .ok page) :
    r.placeRow row h = (.ok page,
      (r.place row h).2.1.withTracker
        ((r.place row h).2.1.tracker.touch page (r.place row h).2.2.now),
      (r.place row h).2.2) := by
  unfold placeRow place at *
  generalize r.freeList.insertRow _ row (r.store, h) = out at hplace ⊢
  obtain ⟨result, f, store, k⟩ := out
  cases hplace
  rfl

theorem placeRow_of_error {fault : Fault} (hplace : (r.place row h).1 = .error fault) :
    r.placeRow row h = (.error fault, (r.place row h).2.1, (r.place row h).2.2) := by
  unfold placeRow place at *
  generalize r.freeList.insertRow _ row (r.store, h) = out at hplace ⊢
  obtain ⟨result, f, store, k⟩ := out
  cases hplace
  rfl

end Region

theorem Phase.hasTracker_of_waits {p : Phase} (h : p.waits = true) : p.hasTracker = false := by
  cases p <;> cases h <;> rfl

namespace System

variable {ι : Type} [DecidableEq ι] {first : System ι} {phase : ι → Phase} {i : ι}
  {r r' : Region} {h h' : Host} {p p' : Phase} {row : UInt32}

/-! ## One client -/

theorem steps_self (s : System ι) (i : ι) :
    Steps s ⟨s.region, s.host, Function.update s.phase i (s.phase i)⟩ := by
  rw [Function.update_eq_self]

/-- The client takes another step. -/
theorem Steps.follow (hsteps : Steps first ⟨r, h, Function.update phase i p⟩)
    (hfree : ∀ j, j ≠ i → (phase j).hasTracker = false) (act : Region.Act r h p p' r' h') :
    Steps first ⟨r', h', Function.update phase i p'⟩ := by
  refine hsteps.tail ?_
  have hself : Function.update phase i p i = p := Function.update_self i p phase
  have hstep : Step (⟨r, h, Function.update phase i p⟩ : System ι)
      ⟨r', h', Function.update (Function.update phase i p) i p'⟩ := by
    refine .act i ?_ ?_
    · change Region.Act r h (Function.update phase i p i) p' r' h'
      rw [hself]
      exact act
    · intro hwaits j
      change (Function.update phase i p i).waits = true at hwaits
      change (Function.update phase i p j).hasTracker = false
      rw [hself] at hwaits
      by_cases hj : j = i
      · rw [hj, hself]
        exact Phase.hasTracker_of_waits hwaits
      · rw [Function.update_of_ne hj]
        exact hfree j hj
  rw [Function.update_idem] at hstep
  exact hstep

theorem Steps.elsewhere {s : System ι} (hsteps : Steps first s) (k : Host) :
    Steps first { s with host := k } :=
  hsteps.tail (.outside k)

/-! ## Evicting -/

/-- How far a client is after room was made for its row, or was not. -/
def afterRoom (row : UInt32) : Except Fault Unit → Phase
  | .ok () => .placing row
  | .error _ => .idle

/-- The region after attempts to evict that came to this. -/
def afterAttempts (r : Region) (h : Host) (t : Tracker) (f : FreeList) :
    Except Fault Unit → Region
  | .ok () => { r with
      tracker := t
      freeList := f
      store := { r.store with metrics := r.store.metrics.countEviction h.now } }
  | .error _ => { r with tracker := t, freeList := f }

/-- A victim is chosen, and the free list asked to drop its rows. -/
theorem Steps.dropVictim {u : Tracker} {f : FreeList} {k : Host} {victim : PageId}
    {result : Except Fault Unit} (chosen : r.tracker.choose h = (some victim, u, k))
    (hdrop : (r.withTracker u).dropVictim victim k = (result, afterAttempts r k u f result))
    (hfree : ∀ j, j ≠ i → (phase j).hasTracker = false)
    (hsteps : Steps first ⟨r, h, Function.update phase i (.evicting row)⟩)
    (hact : Region.Act (r.withTracker u) k (.dropping row victim) p'
      ((r.withTracker u).dropVictim victim k).2 k) :
    Steps first ⟨afterAttempts r k u f result, k, Function.update phase i p'⟩ := by
  have hchosen := hsteps.follow hfree (.choose row victim (congrArg Prod.fst chosen))
  rw [chosen] at hchosen
  have hdropped := hchosen.follow hfree hact
  rw [hdrop] at hdropped
  exact hdropped

/-- What the free list makes of a victim. -/
theorem dropVictim_eq (u : Tracker) (k : Host) {f : FreeList} {victim : PageId}
    {result : Except Fault Unit} (hevict : r.freeList.evict victim = (result, f)) :
    (r.withTracker u).dropVictim victim k = (result, afterAttempts r k u f result) := by
  unfold Region.dropVictim Region.withTracker
  simp only [hevict]
  cases result <;> rfl

theorem Steps.attempts {t t' : Tracker} {f f' : FreeList} {result : Except Fault PageId}
    (hattempts : Tracker.Attempts t f h result t' f' h') (ht : r.tracker = t) (hf : r.freeList = f)
    (hfree : ∀ j, j ≠ i → (phase j).hasTracker = false)
    (hsteps : Steps first ⟨r, h, Function.update phase i (.evicting row)⟩) :
    Steps first ⟨afterAttempts r h' t' f' (result.map fun _ => ()), h',
      Function.update phase i (afterRoom row (result.map fun _ => ()))⟩ := by
  induction hattempts generalizing r with
  | givenUp fault =>
    subst ht hf
    exact hsteps.follow hfree (.giveUp row)
  | @evicted t u f f' h k victim chosen dropped =>
    subst ht hf
    have hvictim := dropVictim_eq u k dropped
    have hgone := hsteps.dropVictim chosen hvictim hfree
      (.drop row victim (congrArg Prod.fst hvictim))
    exact hgone.follow hfree (.evicted row victim)
  | @failed t u f f' h k victim fault chosen dropped other =>
    subst ht hf
    have hvictim := dropVictim_eq u k dropped
    exact hsteps.dropVictim chosen hvictim hfree
      (.fail row victim fault (congrArg Prod.fst hvictim) other)
  | @again t u t' f f' f'' h k k' victim fault result chosen dropped absent _ ih =>
    subst ht hf
    have hvictim := dropVictim_eq u k dropped
    have hdenied := hsteps.dropVictim chosen hvictim hfree
      (.miss row victim fault (congrArg Prod.fst hvictim) absent)
    have hmore := ih rfl rfl (hdenied.follow hfree (.again row victim))
    cases result <;> exact hmore

/-- Evicting a page, by a client who has the guard of the tracker. -/
theorem Steps.evictPage (hkind : r.tracker.kind ≠ .idle)
    (hfree : ∀ j, j ≠ i → (phase j).hasTracker = false)
    (hsteps : Steps first ⟨r, h, Function.update phase i (.evicting row)⟩) :
    (r.evictPage h).2.1.tracker.kind = r.tracker.kind
      ∧ Steps first ⟨(r.evictPage h).2.1, (r.evictPage h).2.2,
        Function.update phase i (afterRoom row (r.evictPage h).1)⟩ := by
  obtain ⟨result, t, f, k, heq, hattempts⟩ := Tracker.evict_attempts hkind r.freeList h
  have hafter : r.evictPage h = (result.map fun _ => (),
      afterAttempts r k t f (result.map fun _ => ()), k) := by
    unfold Region.evictPage
    rw [heq]
    cases result <;> rfl
  rw [hafter]
  refine ⟨?_, hsteps.attempts hattempts rfl rfl hfree⟩
  cases result <;> exact hattempts.kind

/-- Making room, as long as it takes. -/
theorem Steps.makeRoom {watermark : Binary64} {target : UInt64} {s u : Region × Host}
    {result : Except Fault Unit}
    (hroom : Region.supply.makeRoom watermark target s = (some result, u))
    (hkind : s.1.tracker.kind ≠ .idle) (hfree : ∀ j, j ≠ i → (phase j).hasTracker = false)
    (hsteps : Steps first ⟨s.1, s.2, Function.update phase i (.placing row)⟩) :
    Steps first ⟨u.1, u.2, Function.update phase i (afterRoom row result)⟩ := by
  -- An eviction of the supply is one of its region.
  have hpage : ∀ (s t : Region × Host) (out : Except Fault Unit), Region.supply.evict s = (out, t) →
      s.1.tracker.kind ≠ .idle →
      Steps first ⟨s.1, s.2, Function.update phase i (.placing row)⟩ →
      t.1.tracker.kind = s.1.tracker.kind
        ∧ Steps first ⟨t.1, t.2, Function.update phase i (afterRoom row out)⟩ := by
    intro s t out hev hkind hsteps
    have hheld := (hsteps.follow hfree (.lack row)).follow hfree (.seize row)
    have hevicted := hheld.evictPage hkind hfree
    have hout : s.1.evictPage s.2 = (out, t.1, t.2) :=
      Prod.ext (congrArg Prod.fst hev) (congrArg Prod.snd hev)
    rw [hout] at hevicted
    exact hevicted
  fun_induction Region.supply.makeRoom watermark target s with
  | case1 s _ fault t hev =>
    cases hroom
    exact (hpage s _ _ hev hkind hsteps).2
  | case2 s _ t hev _ ih =>
    obtain ⟨hsame, hmore⟩ := hpage s t _ hev hkind hsteps
    exact ih hroom (fun he => hkind (hsame.symm.trans he)) hmore
  | case3 => cases hroom
  | case4 s _ =>
    cases hroom
    exact hsteps

theorem Steps.ensureFreeSpace {result : Except Fault Unit}
    (hensure : r.ensureFreeSpace h = (some result, r', h')) (hkind : r.tracker.kind ≠ .idle)
    (hfree : ∀ j, j ≠ i → (phase j).hasTracker = false)
    (hsteps : Steps first ⟨r, h, Function.update phase i (.placing row)⟩) :
    Steps first ⟨r', h', Function.update phase i (afterRoom row result)⟩ := by
  cases hevicts : r.options.evicts r.persistence with
  | false =>
    rw [Region.ensureFreeSpace_of_not_evicts hevicts] at hensure
    cases hensure
    exact hsteps
  | true =>
    rcases hroom : r.makeRoom h with ⟨out, s, k⟩
    obtain ⟨notes, heq, -⟩ := Region.ensureFreeSpace_of_evicts hevicts hroom
    rw [heq] at hensure
    cases hensure
    exact (hsteps.makeRoom hroom hkind hfree).elsewhere _

/-! ## Whole operations -/

variable {s : System ι}

/-- **Placing a row**, from no work to no work. -/
theorem steps_insertRow (hidle : s.phase i = .idle) (hfree : ∀ j, (s.phase j).hasTracker = false)
    (hkind : s.region.tracker.kind ≠ .idle) {result : Except Fault PageId}
    (hinsert : s.region.insertRow row s.host = (some result, r, h)) :
    Steps s ⟨r, h, s.phase⟩ := by
  have hothers : ∀ j, j ≠ i → (s.phase j).hasTracker = false := fun j _ => hfree j
  have hself := steps_self s i
  rw [hidle] at hself
  have hasked := hself.follow hothers (.ask row)
  -- Nobody can tell that the client was at work.
  have hend : Function.update s.phase i .idle = s.phase := by
    rw [← hidle, Function.update_eq_self]
  unfold Region.insertRow at hinsert
  rcases hensure : s.region.ensureFreeSpace s.host with ⟨_ | fault | _, r₁, h₁⟩
  · rw [hensure] at hinsert
    cases hinsert
  · have hdenied := hasked.ensureFreeSpace hensure hkind hothers
    rw [hensure] at hinsert
    cases hinsert
    rw [← hend]
    exact hdenied
  · have hroom := hasked.ensureFreeSpace hensure hkind hothers
    rw [hensure] at hinsert
    simp only [Prod.mk.injEq, Option.some.injEq] at hinsert
    obtain ⟨-, rfl, rfl⟩ := hinsert
    rw [← hend]
    cases hplace : (r₁.place row h₁).1 with
    | error fault =>
      have hrefused := hroom.follow hothers (.refuse row fault hplace)
      rw [Region.placeRow_of_error hplace]
      exact hrefused
    | ok page =>
      have hplaced := hroom.follow hothers (.place row page hplace)
      have htouched := hplaced.follow hothers (.touch page (r₁.place row h₁).2.2.now)
      rw [Region.placeRow_of_ok hplace]
      exact htouched

/-- **Removing a row**, from no work to no work. -/
theorem steps_removeRow (hidle : s.phase i = .idle) (hfree : ∀ j, (s.phase j).hasTracker = false)
    (page : PageId) (row : UInt32) :
    Steps s ⟨(s.region.removeRow page row).2, s.host, s.phase⟩ := by
  have hothers : ∀ j, j ≠ i → (s.phase j).hasTracker = false := fun j _ => hfree j
  have hself := steps_self s i
  rw [hidle] at hself
  have hend : Function.update s.phase i .idle = s.phase := by
    rw [← hidle, Function.update_eq_self]
  rw [← hend]
  rcases hremove : s.region.freeList.removeRow page row with ⟨fault | emptied, f⟩
  · have hout : s.region.withdraw page row = (.error fault, { s.region with freeList := f }) := by
      unfold Region.withdraw
      rw [hremove]
    have hrefused := hself.follow hothers (.remove page row (by rw [hout]; nofun))
    rw [hout] at hrefused
    unfold Region.removeRow
    rw [hremove]
    exact hrefused
  · have hout : s.region.withdraw page row = (.ok emptied, { s.region with freeList := f }) := by
      unfold Region.withdraw
      rw [hremove]
    unfold Region.removeRow
    rw [hremove]
    cases emptied with
    | false =>
      have hkept := hself.follow hothers (.remove page row (by rw [hout]; nofun))
      rw [hout] at hkept
      exact hkept
    | true =>
      have hemptied := hself.follow hothers (.empty page row (by rw [hout]))
      rw [hout] at hemptied
      simp only [if_true, Tracker.forget_eq]
      cases hholds : f.holds page with
      | true =>
        have hspared := hemptied.follow hothers (.spare page hholds)
        rw [show RowStore.holdsRows f page = true from hholds]
        exact hspared
      | false =>
        have hdoomed := hemptied.follow hothers (.doom page hholds)
        have hgone := hdoomed.follow hothers (.unlist page)
        rw [show RowStore.holdsRows f page = false from hholds]
        exact hgone

/-! ## Clients who come and go -/

/-- **No page with rows is lost by the tracker**, however clients interleave: when none of them is
at work, every page that holds rows is tracked. From there the operations of a region are steps,
too, so whoever is alone for a while is one of the clients who interleave. -/
theorem interleaved_tracked {now : UInt64} {o : RegionOptions} {pageSize : UInt32}
    {isDefault persistence : Bool} {kind : TrackerKind} {backing : Backing} {hasDirectory : Bool}
    (hkind : kind ≠ .idle) {host h : Host} {first : Region}
    (hstart : (Region.fresh now o pageSize isDefault persistence kind backing hasDirectory).start
      host = (.ok (), first, h))
    {s : System ι} (hsteps : Steps (initial first h) s) (hidle : ∀ i, s.phase i = .idle) :
    (∀ page, s.region.freeList.holds page = true → page ∈ s.region.tracker.pages)
      ∧ (Nonempty ι →
        (∀ row result r k, s.region.insertRow row s.host = (some result, r, k) →
          Steps s ⟨r, k, s.phase⟩)
        ∧ ∀ page row, Steps s ⟨(s.region.removeRow page row).2, s.host, s.phase⟩) := by
  have hsafe := (safe_initial hkind hstart).steps hsteps
  have hfree : ∀ j, (s.phase j).hasTracker = false := fun j => by rw [hidle j]; rfl
  have hawake := Tracker.kind_ne_idle_of_started hsafe.started
  refine ⟨fun page hholds => hsafe.tracked_of_idle hidle hholds, fun ⟨i⟩ => ⟨?_, ?_⟩⟩
  · intro row result r k hinsert
    exact steps_insertRow (hidle i) hfree hawake hinsert
  · intro page row
    exact steps_removeRow (hidle i) hfree page row

/-- One client empties a page and sees that it is empty. Before it takes the page out of the queue
another one places a row there, and touches the page only after that. -/
theorem interleaved_tracked_reused :
    ∃ (first : Region) (h : Host) (s : System Bool), Steps (initial first h) s
      ∧ (∀ i, s.phase i = .idle) ∧ s.region.freeList.holds ⟨0, 0⟩ = true
      ∧ ⟨0, 0⟩ ∈ s.region.tracker.pages := by
  let page : PageId := ⟨0, 0⟩
  let full : UInt32 := 4194280
  let fresh := Region.fresh 0 (Region.tenMiB Binary64.nan) full false false .fairQueue .anonymous
    false
  let started := fresh.start (Host.fresh ⟨[], []⟩ fun _ => 0)
  let before : System Bool := initial started.2.1 started.2.2
  have hstart : fresh.start (Host.fresh ⟨[], []⟩ fun _ => 0)
      = (.ok (), started.2.1, started.2.2) := rfl
  have h₀ : Steps before before :=
    .refl
  have h₁ := h₀.act false rfl (.ask full) nofun
  have h₂ := h₁.act false rfl (.place full page (by decide +kernel)) nofun
  have h₃ := h₂.act false rfl (.touch page 0) (by decide +kernel)
  have h₄ := h₃.act false rfl (.empty page full (by decide +kernel)) nofun
  have h₅ := h₄.act false rfl (.doom page (by decide +kernel)) (by decide +kernel)
  have h₆ := h₅.act true rfl (.ask full) nofun
  have h₇ := h₆.act true rfl (.place full page (by decide +kernel)) nofun
  have h₈ := h₇.act false rfl (.unlist page) nofun
  have h₉ := h₈.act true rfl (.touch page 0) (by decide +kernel)
  exact ⟨_, _, _, h₉, by decide +kernel, by decide +kernel,
    (interleaved_tracked (by decide) hstart h₉ (by decide +kernel)).1 page (by decide +kernel)⟩

end System
end PageRegions
