import PageRegions.Proofs.Region.Exhaustion
import PageRegions.Proofs.Region.Lasting

/-!
# When making room ends

The loop that makes room has no bound of its own: it evicts one page after the other while the
region is short of pages. Here it is once more, as it is (`Supply.Leaves`). Making room, as it is
defined, stops at an eviction that succeeded and added nothing to the pool; that no loop ends behind
such an eviction is not in the definition, and is shown where it is so.

Trackers that know their pages do add to the pool, so it lacks one page less each time, and the loop
ends (`returns_of_kind`). The idle tracker is another matter. It succeeds and does nothing. A region
with it is as short of pages after an eviction as it was before, and the loop is never left
(`hangs_of_idle`).

Regions with the idle tracker can become short of pages just if they have pages to spare. For this
their trackers do not matter: until a region is short, placing rows is the same with every tracker
(`withTracker`), so it can be filled like one that tracks its pages.
-/

set_option autoImplicit false

namespace PageRegions

/-! ## The loop -/

namespace Supply

variable {σ : Type} {v : Supply σ} {watermark : Binary64} {target : UInt64} {s t : σ}
  {result : Except Fault Unit}

/-- The loop is left after so many evictions: with what result, and what supply. -/
inductive Leaves (v : Supply σ) (watermark : Binary64) (target : UInt64) :
    Nat → σ → Except Fault Unit → σ → Prop
  | enough {s : σ} (enough : v.isShort watermark target s = false) :
      Leaves v watermark target 0 s (.ok ()) s
  | refused {s t : σ} {fault : Fault} (short : v.isShort watermark target s = true)
      (evicted : v.evict s = (.error fault, t)) : Leaves v watermark target 1 s (.error fault) t
  | again {n : Nat} {s t u : σ} {result : Except Fault Unit}
      (short : v.isShort watermark target s = true) (evicted : v.evict s = (.ok (), t))
      (more : Leaves v watermark target n t result u) :
      Leaves v watermark target (n + 1) s result u

theorem pooled_lt_of_isShort (hshort : v.isShort watermark target s = true) :
    v.pooled s < target := by
  rw [isShort, Bool.and_eq_true, decide_eq_true_iff] at hshort
  exact hshort.2

/-- If room is made the loop is left, after no more evictions than the pool lacks pages. -/
theorem leaves_of_makeRoom (hroom : v.makeRoom watermark target s = (some result, t)) :
    ∃ n ≤ target.toNat - (v.pooled s).toNat, v.Leaves watermark target n s result t := by
  fun_induction v.makeRoom watermark target s with
  | case1 s hshort fault u hev =>
    have hlack := UInt64.lt_iff_toNat_lt.mp (pooled_lt_of_isShort hshort)
    cases hroom
    exact ⟨1, by omega, .refused hshort hev⟩
  | case2 s hshort u hev hlt ih =>
    have hlack := UInt64.lt_iff_toNat_lt.mp (pooled_lt_of_isShort hshort)
    have hmore := UInt64.lt_iff_toNat_lt.mp hlt
    obtain ⟨n, hn, hleaves⟩ := ih hroom
    exact ⟨n + 1, by omega, .again hshort hev hleaves⟩
  | case3 => cases hroom
  | case4 s hnot =>
    cases hroom
    exact ⟨0, Nat.zero_le _, .enough (Bool.eq_false_iff.mpr hnot)⟩

/-- Room is made or refused if each eviction that succeeds adds to the pool. -/
theorem makeRoom_ne_none {I : σ → Prop} (hstep : ∀ s, I s → I (v.evict s).2)
    (hgrows : ∀ s t, I s → v.isShort watermark target s = true → v.evict s = (.ok (), t) →
      v.pooled s < v.pooled t) (hs : I s) : (v.makeRoom watermark target s).1 ≠ none := by
  fun_induction v.makeRoom watermark target s with
  | case1 => exact Option.some_ne_none _
  | case2 s _ u hev _ ih =>
    refine ih ?_
    rw [show u = (v.evict s).2 by rw [hev]]
    exact hstep s hs
  | case3 s hshort u hev hnot => exact absurd (hgrows s u hs hshort hev) hnot
  | case4 => exact Option.some_ne_none _

/-- An eviction that changes nothing is repeated for ever. -/
theorem not_leaves (hshort : v.isShort watermark target s = true) (hsame : v.evict s = (.ok (), s))
    (n : Nat) : ¬ v.Leaves watermark target n s result t := by
  induction n with
  | zero =>
    rintro ⟨henough⟩
    rw [henough] at hshort
    cases hshort
  | succ n ih =>
    intro hleaves
    cases hleaves with
    | refused _ hev =>
      rw [hsame] at hev
      cases hev
    | again _ hev hmore =>
      rw [hsame] at hev
      cases hev
      exact ih hmore

theorem makeRoom_of_same (hshort : v.isShort watermark target s = true)
    (hsame : v.evict s = (.ok (), s)) : v.makeRoom watermark target s = (none, s) := by
  rw [makeRoom, dif_pos hshort]
  simp only [hsame]
  exact dif_neg (UInt64.lt_irrefl _)

end Supply

namespace Region

variable {first r s : Region} {h k : Host}

/-! ## With a tracker that knows its pages -/

/-- A region for which making room comes to an end. -/
structure Returns (r : Region) (h : Host) : Prop where
  /-- Each eviction that succeeds adds a page to the pool, as long as it lacks one. -/
  grows : r.pooled < r.options.poolTarget → ∀ s k, r.evictPage h = (.ok (), s, k) →
    s.pooled.toNat = r.pooled.toNat + 1
  /-- So the loop is left when it lacks none. -/
  leaves : ∃ n ≤ r.options.poolTarget.toNat - r.pooled.toNat, ∃ result t,
    supply.Leaves r.watermark r.options.poolTarget n (r, h) result t
  some : (r.ensureFreeSpace h).1 ≠ none

theorem evictPage_pooled (hcoherent : r.tracker.Coherent) (hkind : r.tracker.kind ≠ .idle)
    (hlack : r.pooled < r.options.poolTarget) (hok : r.evictPage h = (.ok (), s, k)) :
    s.pooled.toNat = r.pooled.toNat + 1 := by
  have hev := evictPage_eviction hcoherent hkind h
  rw [hok] at hev
  cases hev with
  | evicted victim _ t _ holds => exact pooled_afterEviction (h := h) (t := t) holds hlack

/-- The loop is left from every region that tracks its pages. -/
theorem makeRoom_ne_none (hcoherent : r.tracker.Coherent) (hkind : r.tracker.kind ≠ .idle)
    (h : Host) : (r.makeRoom h).1 ≠ none := by
  refine Supply.makeRoom_ne_none (I := fun s : Region × Host => Lasting r s.1)
    (fun s hs => hs.evictPage s.2) ?_ ⟨rfl, rfl, hcoherent, rfl⟩
  intro s t hs hshort hev
  have hlack : s.1.pooled < s.1.options.poolTarget := by
    rw [hs.options]
    exact Supply.pooled_lt_of_isShort hshort
  have hok : s.1.evictPage s.2 = (.ok (), t.1, t.2) := by
    simp only [supply, Prod.mk.injEq] at hev
    exact Prod.ext hev.1 hev.2
  have hmore := evictPage_pooled hs.coherent (by rw [hs.kind]; exact hkind) hlack hok
  rw [UInt64.lt_iff_toNat_lt]
  change s.1.pooled.toNat < t.1.pooled.toNat
  omega

/-- **Making room ends if the region tracks its pages.** -/
theorem returns_of_kind (hcoherent : r.tracker.Coherent) (hkind : r.tracker.kind ≠ .idle)
    (h : Host) : r.Returns h := by
  have hends := makeRoom_ne_none hcoherent hkind h
  refine ⟨fun hlack s k hok => evictPage_pooled hcoherent hkind hlack hok, ?_, ?_⟩
  · rcases hroom : r.makeRoom h with ⟨_ | result, t⟩
    · rw [hroom] at hends
      exact absurd rfl hends
    · obtain ⟨n, hn, hleaves⟩ := Supply.leaves_of_makeRoom hroom
      exact ⟨n, hn, result, t, hleaves⟩
  · cases hevicts : r.options.evicts r.persistence with
    | false =>
      rw [ensureFreeSpace_of_not_evicts hevicts]
      exact Option.some_ne_none _
    | true =>
      obtain ⟨notes, heq, -⟩ := ensureFreeSpace_of_evicts hevicts (h := h) rfl
      rw [heq]
      exact hends

/-! ## With the idle tracker -/

/-- A region for which making room, once begun, comes to no end. -/
structure Hangs (r : Region) (h : Host) : Prop where
  /-- Evicting a page succeeds, and changes nothing. -/
  same : r.evictPage h = (.ok (), r, h)
  none : (r.ensureFreeSpace h).1 = none ↔ r.isOver = true ∧ r.pooled < r.options.poolTarget
  never : r.isOver = true → r.pooled < r.options.poolTarget →
    ∀ n result t, ¬ supply.Leaves r.watermark r.options.poolTarget n (r, h) result t

/-- **Making room never ends if the region does not track its pages** and is short of them. -/
theorem hangs_of_idle (hidle : r.tracker.kind = .idle)
    (hevicts : r.options.evicts r.persistence = true) (h : Host) : r.Hangs h := by
  have hsame := evictPage_of_idle hidle h
  have hev : supply.evict (r, h) = (.ok (), (r, h)) := by
    simp only [supply, hsame]
  refine ⟨hsame, ⟨?_, ?_⟩, ?_⟩
  · intro hnone
    by_contra hnot
    rw [not_and_or, Bool.not_eq_true, UInt64.not_lt] at hnot
    rw [ensureFreeSpace_of_enough hnot] at hnone
    cases hnone
  · rintro ⟨hover, hlack⟩
    obtain ⟨notes, heq, -⟩ := ensureFreeSpace_of_evicts hevicts
      (Supply.makeRoom_of_same (isShort_iff.mpr ⟨hover, hlack⟩) hev)
    rw [heq]
  · intro hover hlack n result t
    exact Supply.not_leaves (isShort_iff.mpr ⟨hover, hlack⟩) hev n

/-! ## The same region with another tracker -/

theorem placeRow_withTracker (r : Region) (t : Tracker) (row : UInt32) (h : Host) :
    ∃ t', (r.withTracker t).placeRow row h
      = ((r.placeRow row h).1, (r.placeRow row h).2.1.withTracker t', (r.placeRow row h).2.2) := by
  unfold withTracker placeRow
  generalize r.freeList.insertRow _ row (r.store, h) = out
  obtain ⟨_ | page, f, store, k⟩ := out <;> exact ⟨_, rfl⟩

/-- As long as a region is not above its watermark its tracker does not matter. -/
theorem insertRow_withTracker (hunder : r.isOver = false) (t : Tracker) (row : UInt32) (h : Host) :
    ∃ t', (r.withTracker t).insertRow row h
      = ((r.insertRow row h).1, (r.insertRow row h).2.1.withTracker t', (r.insertRow row h).2.2) := by
  obtain ⟨t', heq⟩ := r.placeRow_withTracker t row h
  have hunder' : (r.withTracker t).isOver = false := hunder
  rw [insertRow_of_enough (Or.inl hunder), insertRow_of_enough (Or.inl hunder'), heq]
  exact ⟨t', rfl⟩

theorem insertRow_idle (hidle : r.tracker.kind = .idle) (row : UInt32) (h : Host) :
    (r.insertRow row h).2.1.tracker.kind = .idle := by
  have hcoherent : r.tracker.Coherent := by
    rw [Tracker.eq_idle hidle]
    trivial
  have hlasting : Lasting r r := ⟨rfl, rfl, hcoherent, rfl⟩
  exact (hlasting.insertRow row h).kind.trans hidle

/-- A region is started alike with every tracker. -/
theorem start_withTracker {now : UInt64} {o : RegionOptions} {page : UInt32}
    {isDefault persistence : Bool} {kind : TrackerKind} {backing : Backing} {hasDirectory : Bool}
    (hstart : (fresh now o page isDefault persistence kind backing hasDirectory).start h
      = (.ok (), r, k)) (other : TrackerKind) :
    ∃ k', (fresh now o page isDefault persistence other backing hasDirectory).start h
      = (.ok (), r.withTracker (Tracker.fresh other).start, k') := by
  unfold Region.start fresh MeteredMemory.start at hstart ⊢
  simp only at hstart ⊢
  rcases hmemory : (PageMemory.fresh o page backing).start h with ⟨_ | _, m, h₁⟩
  · rw [hmemory] at hstart
    cases hstart
  · rw [hmemory] at hstart
    cases hstart
    exact ⟨_, rfl⟩

/-! ## Which regions become short of pages -/

variable {page : UInt32} {n : Nat} {t : Tracker}

/-- Filling page after page ends above the watermark, where making room does not. The induction is
on how many are to come. -/
theorem Filled.insertRows_none (more : Nat) (hr : Filled first page n (r.withTracker t) h)
    (hcounted : Counted first (r.withTracker t) h) (hidle : r.tracker.kind = .idle)
    (hpage : page ≠ 0) (hevicts : first.options.evicts first.persistence = true)
    (hpool : 0 < first.options.poolTarget)
    (hspare : first.watermark.less (Binary64.ofNat first.store.memory.total) = true)
    (hsum : n + more = first.store.memory.total + 1) :
    (r.insertRows page more h).1 = none
      ∨ ∃ fault, (r.insertRows page more h).1 = some (.error fault) ∧ fault.isMapping = true := by
  have hle := hr.le_total
  induction more generalizing n r h t with
  | zero => omega
  | succ more ih =>
    have hoptions : r.options = first.options := hcounted.options
    have hpersistence : r.persistence = first.persistence := hcounted.persistence
    unfold Region.insertRows
    cases hover : r.isOver with
    | true =>
      have hlack : r.pooled < r.options.poolTarget := by
        have hempty : r.pooled = 0 := by
          unfold Region.pooled FreeList.pooled
          rw [show r.freeList.pool = [] from hr.pool]
          rfl
        rw [hempty, hoptions]
        exact hpool
      have hhangs := hangs_of_idle hidle (by rw [hoptions, hpersistence]; exact hevicts) h
      have hnone := hhangs.none.mpr ⟨hover, hlack⟩
      unfold Region.insertRow
      generalize r.ensureFreeSpace h = out at hnone
      obtain ⟨result, s, k⟩ := out
      cases hnone
      exact Or.inl rfl
    | false =>
      -- Nothing is asked of the tracker, so this is what would happen with the other one.
      have hlow : first.watermark.less (Binary64.ofNat n) = false := by
        rw [← hover, ← hcounted.watermark, ← hr.loaded]
        rfl
      have hkept := hcounted.insertRow page
      have hidle' := insertRow_idle hidle page h
      obtain ⟨t', heq⟩ := insertRow_withTracker hover t page h
      rcases hr.insertRow hpage hlow with ⟨id, hok, hfilled⟩ | ⟨fault, herror, hwhy⟩
      · rw [heq] at hok hfilled hkept
        generalize r.insertRow page h = out at hok hfilled hkept hidle'
        obtain ⟨result, s, k⟩ := out
        cases hok
        exact ih hfilled hkept hidle' (by omega) hfilled.le_total
      · have hmapping : fault.isMapping = true := by
          refine hwhy.resolve_left fun hout => ?_
          rw [hcounted.insertRow_error hevicts hpool hspare herror] at hout
          cases hout
        rw [heq] at herror
        generalize r.insertRow page h = out at herror
        obtain ⟨result, s, k⟩ := out
        cases herror
        exact Or.inr ⟨fault, rfl, hmapping⟩

/-- Where not even all pages are above the watermark room never has to be made. -/
theorem Stored.ensureFreeSpace_of_total (hr : Stored first r h) (hoptions : r.options = first.options)
    (hlow : first.watermark.less (Binary64.ofNat first.store.memory.total) = false) :
    r.ensureFreeSpace h = (some (.ok ()), r, h) := by
  refine ensureFreeSpace_of_enough (Or.inl ?_) h
  have hmark : r.watermark = first.watermark := by
    unfold Region.watermark PageMemory.systemPageSize
    rw [hoptions, hr.further.pageSize]
  unfold isOver
  rw [hmark, Bool.eq_false_iff]
  intro hless
  rw [Binary64.less_ofNat_mono hr.loaded_le hless] at hlow
  cases hlow

variable {o : RegionOptions} {persistence : Bool}

/-- **A region that does not track its pages becomes short of them just if it has pages to spare.** -/
theorem JustStarted.hangs (hr : JustStarted o page persistence (r.withTracker t))
    (hidle : r.tracker.kind = .idle) (hpage : page ≠ 0) (hevicts : o.evicts persistence = true)
    (hpool : 0 < o.poolTarget) (host : Host) :
    (o.sparesPages (page + PageMemory.headerSize) = true →
        (r.insertRows page (o.pageCount (page + PageMemory.headerSize) + 1) host).1 = none
          ∨ ∃ fault, (r.insertRows page (o.pageCount (page + PageMemory.headerSize) + 1) host).1
            = some (.error fault) ∧ fault.isMapping = true)
      ∧ (o.sparesPages (page + PageMemory.headerSize) = false →
        ∀ s k, Run ClientCall r host s k → s.ensureFreeSpace k = (some (.ok ()), s, k)) := by
  have hspares := hr.sparesPages
  refine ⟨fun hspare => ?_, fun hlow s k hrun => ?_⟩
  · refine (hr.filled host).insertRows_none _ (hr.counted host) hidle hpage ?_ ?_ ?_ ?_
    · rw [hr.options, hr.persistence]
      exact hevicts
    · rw [hr.options]
      exact hpool
    · rw [hspares]
      exact hspare
    · rw [hr.total, Nat.zero_add]
  · have hcoherent : r.tracker.Coherent := by
      rw [Tracker.eq_idle hidle]
      trivial
    have hfirst : Stored r r host := ⟨(hr.inv host).memory, .refl _⟩
    refine (hfirst.run hrun).ensureFreeSpace_of_total (hrun.lasting hcoherent).options ?_
    rw [hlow] at hspares
    exact hspares

end Region
end PageRegions
