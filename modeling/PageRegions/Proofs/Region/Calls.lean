import PageRegions.Proofs.Region.Eviction

/-!
# Regions that can be reached

A region is asked for one thing after the other, and what it answers depends on a host that may be
different each time: time passes, lots fall, others map memory. `Reached` is about all such regions,
whatever was asked for before and whether it succeeded, and also about regions that were never
started or that were stopped.

All that is needed of them here is that their trackers are coherent. Nothing is said of how free
list and tracker go together, and indeed a caller can make either of them know pages that the other
does not.

A `Run` is narrower: it is about one region on its host, and about calls of one kind.
-/

set_option autoImplicit false

namespace PageRegions

/-- What a region can be asked for. -/
inductive RegionCall where
  | start
  | stop
  | ensure
  | evict
  | insert (row : UInt32)
  | remove (page : PageId) (row : UInt32)
  | dropRows (page : PageId)
  | touch (page : PageId)
  | allocate
  | free (page : PageId)
  | recycle (page : PageId)
  | take
  /-- The metrics of the region are asked or changed. -/
  | measure (metrics : RegionMetrics)

namespace Region

/-- Carries a call out: whether it failed, the region and the host after it; `none` if it never
returns. -/
def perform (r : Region) (h : Host) : RegionCall → Option (Except Fault Unit) × Region × Host
  | .start =>
    let (result, r, h) := r.start h
    (some result, r, h)
  | .stop =>
    let (result, r, h) := r.stop h
    (some result, r, h)
  | .ensure => r.ensureFreeSpace h
  | .evict =>
    let (result, r, h) := r.evictPage h
    (some result, r, h)
  | .insert row =>
    let (result, r, h) := r.insertRow row h
    (result.map fun out => out.map fun _ => (), r, h)
  | .remove page row =>
    let (result, r) := r.removeRow page row
    (some result, r, h)
  | .dropRows page =>
    let (result, r) := r.dropRows page
    (some result, r, h)
  | .touch page => (some (.ok ()), r.touch page h, h)
  | .allocate =>
    let (result, r, h) := r.allocatePage h
    (some (result.map fun _ => ()), r, h)
  | .free page =>
    let (result, r, h) := r.freePage page h
    (some result, r, h)
  | .recycle page =>
    let (result, r) := r.recycle page h
    (some result, r, h)
  | .take =>
    let (result, r) := r.takeRecycled
    (some (result.map fun _ => ()), r, h)
  | .measure metrics => (some (.ok ()), r.withMetrics metrics, h)

theorem start_parts (r : Region) (h : Host) : (r.start h).2.1.freeList = r.freeList
    ∧ (r.start h).2.1.store.memory = (r.store.memory.start h).2.1
    ∧ (r.start h).2.1.options = r.options
    ∧ (r.start h).2.2.files = (r.store.memory.start h).2.2.files := by
  unfold Region.start MeteredMemory.start
  simp only
  rcases r.store.memory.start h with ⟨_ | _, m, k⟩ <;> exact ⟨rfl, rfl, rfl, rfl⟩

/-- The regions that calls lead to, each on any host. -/
inductive Reached : Region → Prop
  | fresh (now : UInt64) (o : RegionOptions) (pageSize : UInt32) (isDefault persistence : Bool)
      (kind : TrackerKind) (backing : Backing) (hasDirectory : Bool) :
      Reached (fresh now o pageSize isDefault persistence kind backing hasDirectory)
  | call (c : RegionCall) (h : Host) {r : Region} (before : Reached r) :
      Reached (r.perform h c).2.1

/-- The regions, with their hosts, that a first one is led to by calls of one kind. Meanwhile a host
may change in any way but one: what stands in the memory of the region stays. So time passes, lots
fall, files come and go, and others map memory and write to their own. -/
inductive Run (may : Region → RegionCall → Prop) (first : Region) (host : Host) :
    Region → Host → Prop
  | first : Run may first host first host
  | call (c : RegionCall) {r : Region} {h : Host} (before : Run may first host r h)
      (allowed : may r c) : Run may first host (r.perform h c).2.1 (r.perform h c).2.2
  | outside (k : Host) {r : Region} {h : Host} (before : Run may first host r h)
      (same : ∀ s ∈ r.store.memory.segments, k.block s.block = h.block s.block) :
      Run may first host r k

/-- What each call keeps, and what others do meanwhile, is kept by all of them. -/
theorem Run.keeps {may : Region → RegionCall → Prop} {first r : Region} {host h : Host}
    {I : Region → Host → Prop}
    (hcall : ∀ r h c, I r h → may r c → I (r.perform h c).2.1 (r.perform h c).2.2)
    (houtside : ∀ r h k, I r h →
      (∀ s ∈ r.store.memory.segments, k.block s.block = h.block s.block) → I r k)
    (hfirst : I first host) (hrun : Run may first host r h) : I r h := by
  induction hrun with
  | first => exact hfirst
  | call c _ allowed ih => exact hcall _ _ c ih allowed
  | outside k _ same ih => exact houtside _ _ k ih same

end Region

/-! ## Making room, whatever the supply -/

namespace Supply

variable {σ : Type} {v : Supply σ} {watermark : Binary64} {target : UInt64} {s t : σ}

theorem makeRoom_of_enough (h : v.isShort watermark target s = false) :
    v.makeRoom watermark target s = (some (.ok ()), s) := by
  rw [makeRoom, dif_neg (by rw [h]; exact Bool.false_ne_true)]

theorem makeRoom_of_error {fault : Fault} (h : v.isShort watermark target s = true)
    (hev : v.evict s = (.error fault, t)) :
    v.makeRoom watermark target s = (some (.error fault), t) := by
  rw [makeRoom, dif_pos h]
  simp only [hev]

theorem makeRoom_of_ok (h : v.isShort watermark target s = true)
    (hev : v.evict s = (.ok (), t)) (hlt : v.pooled s < v.pooled t) :
    v.makeRoom watermark target s = v.makeRoom watermark target t := by
  rw [makeRoom, dif_pos h]
  simp only [hev]
  rw [dif_pos hlt]

/-- What every eviction keeps that is made because the supply is short is kept. -/
theorem makeRoom_keeps_short {I : σ → Prop}
    (hstep : ∀ s, I s → v.isShort watermark target s = true → I (v.evict s).2) (hs : I s) :
    I (v.makeRoom watermark target s).2 := by
  fun_induction v.makeRoom watermark target s with
  | case1 s hshort fault t hev =>
    rw [show t = (v.evict s).2 by rw [hev]]
    exact hstep s hs hshort
  | case2 s hshort t hev _ ih =>
    refine ih ?_
    rw [show t = (v.evict s).2 by rw [hev]]
    exact hstep s hs hshort
  | case3 s hshort t hev =>
    rw [show t = (v.evict s).2 by rw [hev]]
    exact hstep s hs hshort
  | case4 => exact hs

/-- What every eviction keeps is kept. -/
theorem makeRoom_keeps {I : σ → Prop} (hstep : ∀ s, I s → I (v.evict s).2) (hs : I s) :
    I (v.makeRoom watermark target s).2 :=
  makeRoom_keeps_short (fun s hs _ => hstep s hs) hs

/-- The fault that ends making room is that of an eviction. -/
theorem makeRoom_error {I : σ → Prop} {P : Fault → Prop}
    (hstep : ∀ s, I s → I (v.evict s).2)
    (herror : ∀ s fault, I s → (v.evict s).1 = .error fault → P fault) (hs : I s) {fault : Fault}
    (h : (v.makeRoom watermark target s).1 = some (.error fault)) : P fault := by
  fun_induction v.makeRoom watermark target s with
  | case1 s _ fault' t hev =>
    cases h
    exact herror s fault hs (by rw [hev])
  | case2 s _ t hev _ ih =>
    refine ih ?_ h
    rw [show t = (v.evict s).2 by rw [hev]]
    exact hstep s hs
  | case3 => cases h
  | case4 => cases h

/-- Room that was made is there. -/
theorem not_isShort_of_makeRoom_ok (h : v.makeRoom watermark target s = (some (.ok ()), t)) :
    v.isShort watermark target t = false := by
  fun_induction v.makeRoom watermark target s with
  | case1 => cases h
  | case2 s _ u _ _ ih => exact ih h
  | case3 => cases h
  | case4 s hs =>
    cases h
    exact Bool.eq_false_iff.mpr hs

end Supply

namespace Region

/-! ## Trackers of regions -/

def withTracker (r : Region) (t : Tracker) : Region := { r with tracker := t }

theorem evictPage_coherent {r : Region} (hr : r.tracker.Coherent) (h : Host) :
    (r.evictPage h).2.1.tracker.Coherent := by
  by_cases hkind : r.tracker.kind = .idle
  · unfold evictPage
    rw [Tracker.eq_idle hkind]
    trivial
  · have hev := evictPage_eviction hr hkind h
    generalize r.evictPage h = out at hev
    cases hev with
    | evicted _ _ t _ _ _ _ coherent => exact coherent
    | refused _ _ t _ _ _ _ _ coherent => exact coherent

/-- Makes room by evicting pages, without noting why that failed. -/
def makeRoom (r : Region) (h : Host) : Option (Except Fault Unit) × Region × Host :=
  supply.makeRoom (r.options.watermark r.store.memory.systemPageSize) r.options.poolTarget (r, h)

theorem ensureFreeSpace_of_not_evicts {r : Region}
    (hevicts : r.options.evicts r.persistence = false) (h : Host) :
    r.ensureFreeSpace h = (some (.ok ()), r, h) := by
  unfold ensureFreeSpace RegionOptions.ensureRoom
  rw [hevicts]
  simp [Host.record]

/-- Only a failure is noted. -/
theorem ensureFreeSpace_of_evicts {r s : Region} (hevicts : r.options.evicts r.persistence = true)
    {h k : Host} {result : Option (Except Fault Unit)} (heq : r.makeRoom h = (result, s, k)) :
    ∃ notes, r.ensureFreeSpace h = (result, s, k.record notes)
      ∧ (result = some (.ok ()) → notes = []) := by
  unfold makeRoom at heq
  unfold ensureFreeSpace RegionOptions.ensureRoom
  rw [hevicts]
  simp only [Bool.not_true, Bool.false_eq_true, if_false, heq]
  rcases result with _ | fault | _
  · exact ⟨_, rfl, fun _ => rfl⟩
  · exact ⟨_, rfl, nofun⟩
  · exact ⟨_, rfl, fun _ => rfl⟩

/-- What evictions and notes keep is kept. -/
theorem ensureFreeSpace_keeps {I : Region → Host → Prop}
    (hstep : ∀ r h, I r h → I (r.evictPage h).2.1 (r.evictPage h).2.2)
    (hrecord : ∀ r h notes, I r h → I r (h.record notes)) {r : Region} {h : Host} (hr : I r h) :
    I (r.ensureFreeSpace h).2.1 (r.ensureFreeSpace h).2.2 := by
  cases hevicts : r.options.evicts r.persistence with
  | false =>
    rw [ensureFreeSpace_of_not_evicts hevicts]
    exact hr
  | true =>
    obtain ⟨notes, heq, -⟩ := ensureFreeSpace_of_evicts hevicts (h := h) rfl
    have hkeeps : I (r.makeRoom h).2.1 (r.makeRoom h).2.2 :=
      Supply.makeRoom_keeps (I := fun s : Region × Host => I s.1 s.2)
        (fun s hs => hstep s.1 s.2 hs) hr
    rw [heq]
    exact hrecord _ _ notes hkeeps

/-- An eviction leaves settings, page memory and files alone. -/
theorem evictPage_parts (r : Region) (h : Host) :
    (r.evictPage h).2.1.options = r.options
      ∧ (r.evictPage h).2.1.store.memory = r.store.memory
      ∧ (r.evictPage h).2.2.files = h.files := by
  obtain ⟨drawn, hhost⟩ := r.tracker.evict_host r.freeList h
  have hfiles := congrArg Host.files hhost
  unfold evictPage
  generalize r.tracker.evict r.freeList h = out at hfiles
  obtain ⟨_ | _ | _, t, f, k⟩ := out <;> exact ⟨rfl, rfl, hfiles⟩

/-- Of the host it takes lots. -/
theorem evictPage_host (r : Region) (h : Host) :
    ∃ drawn, (r.evictPage h).2.2 = { h with drawn := drawn } := by
  obtain ⟨drawn, hhost⟩ := r.tracker.evict_host r.freeList h
  refine ⟨drawn, ?_⟩
  unfold evictPage
  rw [← hhost]
  generalize r.tracker.evict r.freeList h = out
  obtain ⟨_ | _ | _, t, f, k⟩ := out <;> rfl

/-- Making room leaves settings, page memory and files alone. -/
theorem ensureFreeSpace_parts (r : Region) (h : Host) :
    (r.ensureFreeSpace h).2.1.options = r.options
      ∧ (r.ensureFreeSpace h).2.1.store.memory = r.store.memory
      ∧ (r.ensureFreeSpace h).2.2.files = h.files :=
  ensureFreeSpace_keeps
    (I := fun r' k => r'.options = r.options ∧ r'.store.memory = r.store.memory
      ∧ k.files = h.files)
    (fun r' k hsame => by
      obtain ⟨hoptions, hmemory, hfiles⟩ := r'.evictPage_parts k
      exact ⟨hoptions.trans hsame.1, hmemory.trans hsame.2.1, hfiles.trans hsame.2.2⟩)
    (fun _ _ _ hsame => hsame) ⟨rfl, rfl, rfl⟩

theorem ensureFreeSpace_coherent {r : Region} (hr : r.tracker.Coherent) (h : Host) :
    (r.ensureFreeSpace h).2.1.tracker.Coherent :=
  ensureFreeSpace_keeps (I := fun r _ => r.tracker.Coherent)
    (fun _ h hr => evictPage_coherent hr h) (fun _ _ _ hr => hr) hr

theorem placeRow_coherent {r : Region} (hr : r.tracker.Coherent) (row : UInt32) (h : Host) :
    (r.placeRow row h).2.1.tracker.Coherent := by
  unfold placeRow
  generalize r.freeList.insertRow _ row (r.store, h) = out
  obtain ⟨_ | page, f, store, h'⟩ := out
  · exact hr
  · exact hr.touch page h'.now

/-- What making room and placing a row keep is kept by both. -/
theorem insertRow_keeps {I : Region → Host → Prop} {row : UInt32}
    (hplace : ∀ r h, I r h → I (r.placeRow row h).2.1 (r.placeRow row h).2.2) {r : Region}
    {h : Host} (hroom : I (r.ensureFreeSpace h).2.1 (r.ensureFreeSpace h).2.2) :
    I (r.insertRow row h).2.1 (r.insertRow row h).2.2 := by
  unfold insertRow
  generalize r.ensureFreeSpace h = out at hroom
  obtain ⟨_ | _ | _, s, k⟩ := out
  · exact hroom
  · exact hroom
  · exact hplace s k hroom

theorem perform_coherent {r : Region} (hr : r.tracker.Coherent) (h : Host) (c : RegionCall) :
    (r.perform h c).2.1.tracker.Coherent := by
  cases c with
  | start =>
    simp only [perform, start]
    split
    · exact hr
    · exact hr.start
  | stop =>
    simp only [perform, stop]
    split
    · exact hr
    · exact Tracker.coherent_stop r.tracker
  | ensure => exact ensureFreeSpace_coherent hr h
  | evict => exact evictPage_coherent hr h
  | insert row =>
    exact insertRow_keeps (I := fun r _ => r.tracker.Coherent)
      (fun _ h hr => placeRow_coherent hr row h) (ensureFreeSpace_coherent hr h)
  | remove page row =>
    simp only [perform, removeRow]
    split
    · exact hr
    · next emptied f _ =>
      cases emptied with
      | false => exact hr
      | true => exact (hr.forget f page).1
  | dropRows | allocate | free | recycle | take | measure => exact hr
  | touch page => exact hr.touch page h.now

theorem Reached.coherent {r : Region} (hr : Reached r) : r.tracker.Coherent := by
  induction hr with
  | fresh => exact Tracker.coherent_fresh _
  | call c h _ ih => exact perform_coherent ih h c

end Region
end PageRegions
