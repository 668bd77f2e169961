import PageRegions.Proofs.Memory.PageSizes
import PageRegions.Proofs.Options.Reserve
import PageRegions.Proofs.Region.Exhaustion

/-!
# What the watermark bounds

Evicting pages does not unload them, so no call of a client brings the count of loaded pages down.
What keeps it from growing is an interplay: a page is loaded only if the pool is empty, and after
room was made the pool is empty only if the region is not above its watermark. So each call loads a
page at most, and none above the watermark (`Counted.perform_loaded`), and in any run there is never
more than one page above it.

The pool, in turn, is filled only above the watermark, with the pages that hold rows. There are at
least as many loaded pages as the watermark counts and one more, and those that are not pooled yet
hold rows. Whether that is enough for the pool hangs on the settings (`RegionOptions.reachesPool`).
If it is, room is always made. If not, one page more than the watermark counts has to be filled, and
the next row is refused.
-/

set_option autoImplicit false

namespace PageRegions

theorem RowCall.client {r : Region} {c : RegionCall} (hc : RowCall r c) : ClientCall r c := by
  cases hc with
  | insert row => exact .insert row
  | remove page row => exact .remove page row
  | ensure => exact .ensure
  | touch page => exact .touch page

namespace Region

variable {first r : Region} {host h : Host}

/-- What more calls allow can do what fewer allow. -/
theorem Run.mono {may may' : Region → RegionCall → Prop} (hmay : ∀ r c, may r c → may' r c)
    (hrun : Run may first host r h) : Run may' first host r h := by
  induction hrun with
  | first => exact .first
  | call c _ allowed ih => exact ih.call c (hmay _ c allowed)
  | outside k _ same ih => exact ih.outside k same

/-! ## Loaded pages -/

theorem Counted.loaded_lt (hr : Counted first r h) : r.loaded.toNat < 2 ^ 53 := by
  have hle := hr.memory.handedOut_le
  have hlt := hr.memory.total_lt
  rw [← hr.memory.loaded] at hle
  exact Nat.lt_of_le_of_lt hle (Nat.lt_trans hlt (by decide))

/-- A region is above its watermark if it has loaded more pages than that counts. -/
theorem Counted.isOver_iff (hr : Counted first r h) (hnan : first.watermark.isNaN = false)
    (hpos : first.watermark.isNegative = false) :
    r.isOver = true ↔ first.watermark.floorNat < r.loaded.toNat := by
  have hle := Binary64.le_floorNat_iff hr.loaded_lt hnan hpos
  rw [← Nat.not_le, hle, Bool.not_eq_false]
  unfold isOver
  rw [hr.watermark]

/-- Placing a row loads a page only if the pool is empty. -/
theorem Counted.placeRow_loaded (hr : Counted first r h) (row : UInt32) :
    (r.placeRow row h).2.1.loaded = r.loaded
      ∨ (r.placeRow row h).2.1.loaded.toNat = r.loaded.toNat + 1 ∧ r.freeList.pool = [] := by
  have hplace := placeRow_placement hr.memory row
  generalize r.placeRow row h = out at hplace
  cases hplace with
  | refused | added | reopened => exact Or.inl rfl
  | opened _ _ _ _ _ empty _ _ _ _ _ loaded => exact Or.inr ⟨loaded, empty⟩
  | unplaced _ _ _ _ _ _ _ _ loaded => exact Or.inl loaded

/-- **What one call loads**: at most one page, and none above the watermark. -/
theorem Counted.perform_loaded (hr : Counted first r h)
    (hevicts : first.options.evicts first.persistence = true) (hpool : 0 < first.options.poolTarget)
    (hnan : first.watermark.isNaN = false) (hpos : first.watermark.isNegative = false)
    {c : RegionCall} (hc : ClientCall r c) :
    (r.perform h c).2.1.loaded = r.loaded
      ∨ (r.perform h c).2.1.loaded.toNat = r.loaded.toNat + 1
        ∧ r.loaded.toNat ≤ first.watermark.floorNat := by
  have hkept : (r.ensureFreeSpace h).2.1.loaded = r.loaded :=
    congrArg PageMemory.loaded (r.ensureFreeSpace_parts h).2.1
  cases hc with
  | ensure => exact Or.inl hkept
  | touch page => exact Or.inl rfl
  | remove page row =>
    refine Or.inl ?_
    show (r.removeRow page row).2.loaded = r.loaded
    unfold Region.removeRow
    split <;> rfl
  | insert row =>
    show (r.insertRow row h).2.1.loaded = r.loaded
      ∨ (r.insertRow row h).2.1.loaded.toNat = r.loaded.toNat + 1 ∧ _
    have hroom := hr.ensureFreeSpace
    unfold Region.insertRow
    rcases hensure : r.ensureFreeSpace h with ⟨_ | _ | _, s, k⟩
    · rw [hensure] at hkept
      exact Or.inl hkept
    · rw [hensure] at hkept
      exact Or.inl hkept
    · rw [hensure] at hkept hroom
      rcases hroom.placeRow_loaded row with hsame | ⟨hmore, hempty⟩
      · exact Or.inl (hsame.trans hkept)
      · -- The pool is empty although room was made: so the region was not above its watermark.
        have hnone : s.pooled = 0 := by
          unfold pooled FreeList.pooled
          rw [hempty]
          rfl
        rw [← hr.options, ← hr.persistence] at hevicts
        have henough := enough_of_ensureFreeSpace_ok hevicts hensure
        rw [hroom.options, hnone] at henough
        have hunder : s.isOver = false := by
          rcases henough with hunder | hle
          · exact hunder
          · exact absurd hpool (UInt64.not_lt.mpr hle)
        have hnot := mt (hroom.isOver_iff hnan hpos).mpr (by rw [hunder]; exact Bool.false_ne_true)
        change s.loaded = r.loaded at hkept
        rw [hkept] at hmore hnot
        exact Or.inr ⟨hmore, Nat.not_lt.mp hnot⟩

/-- **What runs load**: one page above the watermark at most. -/
theorem Counted.run_loaded (hfirst : Counted first first host)
    (hevicts : first.options.evicts first.persistence = true) (hpool : 0 < first.options.poolTarget)
    (hnan : first.watermark.isNaN = false) (hpos : first.watermark.isNegative = false)
    (hbelow : first.loaded.toNat ≤ first.watermark.floorNat + 1)
    (hrun : Run ClientCall first host r h) : r.loaded.toNat ≤ first.watermark.floorNat + 1 := by
  have hboth : Counted first r h ∧ r.loaded.toNat ≤ first.watermark.floorNat + 1 := by
    refine hrun.keeps (I := fun r h => Counted first r h
      ∧ r.loaded.toNat ≤ first.watermark.floorNat + 1) ?_ ?_ ⟨hfirst, hbelow⟩
    · rintro r h c ⟨hr, hle⟩ hc
      refine ⟨hr.perform hc, ?_⟩
      rcases hr.perform_loaded hevicts hpool hnan hpos hc with hsame | ⟨hmore, hunder⟩
      · rw [hsame]
        exact hle
      · rw [hmore]
        exact Nat.succ_le_succ hunder
    · rintro r h k ⟨hr, hle⟩ hsame
      exact ⟨hr.congr_host hsame, hle⟩
  exact hboth.2

/-- A region whose start was tried, with what success ever, has loaded no page. -/
theorem start_counted {now : UInt64} {o : RegionOptions} {page : UInt32}
    {isDefault persistence : Bool} {kind : TrackerKind} {backing : Backing} {hasDirectory : Bool}
    (hkind : kind ≠ .idle) (hsize : page.toNat + 24 < 2 ^ 32) {k : Host}
    {result : Except Fault Unit}
    (hstart : (fresh now o page isDefault persistence kind backing hasDirectory).start h
      = (result, r, k)) (host : Host) :
    Counted r r host ∧ r.options = o ∧ r.persistence = persistence ∧ r.loaded = 0
      ∧ r.watermark = o.watermark (page + PageMemory.headerSize) := by
  have hinv := inv_start now o page isDefault persistence kind backing hasDirectory hkind hsize
    hstart
  have hpage := ((PageMemory.fresh o page backing).start_sameSizes h).pageSize
  unfold Region.start fresh MeteredMemory.start at hstart
  simp only at hstart
  rcases hmemory : (PageMemory.fresh o page backing).start h with ⟨out, m, h₁⟩
  obtain ⟨-, hloaded, -⟩ := PageMemory.start_fresh o page backing hsize hmemory
  rw [hmemory] at hpage hstart
  have hsame : r.options = o ∧ r.persistence = persistence ∧ r.store.memory = m
      ∧ r.freeList = FreeList.fresh o.name page := by
    cases out with
    | error =>
      cases hstart
      exact ⟨rfl, rfl, rfl, rfl⟩
    | ok =>
      cases hstart
      exact ⟨rfl, rfl, rfl, rfl⟩
  obtain ⟨hoptions, hpersistence, hstore, hlist⟩ := hsame
  have hany : r.Inv host := hinv.any_host (by rw [hlist]; rfl) (by rw [hlist]; rfl) host
  refine ⟨{
    memory := hany.memory
    further := .refl _
    coherent := hany.coherent
    kind := hany.kind
    options := rfl
    persistence := rfl }, hoptions, hpersistence, ?_, ?_⟩
  · unfold loaded
    rw [hstore]
    exact hloaded
  · unfold watermark PageMemory.systemPageSize
    rw [hoptions, hstore]
    exact congrArg (fun size => o.watermark (size + PageMemory.headerSize)) hpage

/-! ## Pooled pages -/

/-- All data pages can be evicted, and nothing else. -/
theorem Inv.evictable_length (hr : r.Inv h) : r.evictable.length = r.freeList.pages.length := by
  have hperm : r.evictable.Perm (r.freeList.pages.map (·.id)) := by
    have hnodup : r.evictable.Nodup := hr.coherent.nodup.filter _
    refine (List.perm_ext_iff_of_nodup hnodup hr.list.keyed).mpr ?_
    intro page
    rw [mem_evictable, hr.tracked, and_self, FreeList.holds_iff_mem]
  rw [hperm.length_eq, List.length_map]

theorem Inv.loaded_eq (hr : r.Inv h) :
    r.loaded.toNat = r.evictable.length + r.pooled.toNat := by
  rw [hr.evictable_length]
  exact hr.consistent.loaded

/-- Room is made if there are as many pages as the pool asks for. -/
theorem Inv.ensureFreeSpace_ok (hr : r.Inv h)
    (hreach : r.isOver = true → r.options.poolTarget.toNat ≤ r.loaded.toNat) :
    (r.ensureFreeSpace h).1 = some (.ok ()) := by
  by_cases henough : r.isOver = false ∨ r.options.poolTarget ≤ r.pooled
  · rw [ensureFreeSpace_of_enough henough]
  · rw [not_or, Bool.not_eq_false, UInt64.not_le] at henough
    cases hevicts : r.options.evicts r.persistence with
    | false => rw [ensureFreeSpace_of_not_evicts hevicts]
    | true =>
      obtain ⟨result, victims, s, k, hrun, hmade⟩ := hr.makeRoom henough.1 henough.2
      obtain ⟨notes, heq, -⟩ := ensureFreeSpace_of_evicts hevicts hrun
      have hsum := hr.loaded_eq
      have hall := hreach henough.1
      rw [heq, hmade.ok (by omega)]

/-- It is not made if there are fewer. -/
theorem Inv.ensureFreeSpace_refused (hr : r.Inv h)
    (hevicts : r.options.evicts r.persistence = true) (hover : r.isOver = true)
    (hlack : r.loaded.toNat < r.options.poolTarget.toNat) :
    ∃ fault, (r.ensureFreeSpace h).1 = some (.error fault) := by
  have hsum := hr.loaded_eq
  have hlt : r.pooled < r.options.poolTarget := by
    rw [UInt64.lt_iff_toNat_lt]
    omega
  obtain ⟨result, victims, s, k, hrun, hmade⟩ := hr.makeRoom hover hlt
  obtain ⟨notes, heq, -⟩ := ensureFreeSpace_of_evicts hevicts hrun
  obtain ⟨fault, hfault, -⟩ := hmade.aborted (by omega)
  rw [heq, hfault]
  exact ⟨fault, rfl⟩

variable {page : UInt32} {n : Nat}

/-- Filling page after page ends one page above the watermark, where the pool cannot be filled. The
induction is on how many are to come. -/
theorem Filled.insertRows_denied (more : Nat) (hr : Filled first page n r h)
    (hcounted : Counted first r h) (hpage : page ≠ 0)
    (hevicts : first.options.evicts first.persistence = true)
    (hnan : first.watermark.isNaN = false) (hpos : first.watermark.isNegative = false)
    (hspare : first.watermark.less (Binary64.ofNat first.store.memory.total) = true)
    (hlack : first.watermark.floorNat + 1 < first.options.poolTarget.toNat)
    (hsum : n + more = first.watermark.floorNat + 2) (hn : n ≤ first.watermark.floorNat + 1) :
    ∃ fault, (r.insertRows page more h).1 = some (.error fault)
      ∧ (fault.deniesVictim = true ∨ fault.isMapping = true) := by
  induction more generalizing n r h with
  | zero => omega
  | succ more ih =>
    unfold Region.insertRows
    rcases Nat.lt_or_eq_of_le hn with hlow | htop
    · -- The watermark is not reached yet: another page is filled.
      have hbelow : first.watermark.less (Binary64.ofNat n) = false := by
        have hlt := hcounted.loaded_lt
        rw [show r.loaded.toNat = n from hr.loaded] at hlt
        rw [← Binary64.le_floorNat_iff hlt hnan hpos]
        exact Nat.le_of_lt_succ hlow
      have hkept := hcounted.insertRow page
      rcases hr.insertRow hpage hbelow with ⟨id, hok, hfilled⟩ | ⟨fault, herror, hwhy⟩
      · generalize r.insertRow page h = out at hok hfilled hkept
        obtain ⟨result, s, k⟩ := out
        cases hok
        exact ih hfilled hkept (by omega) hlow
      · have hnot := hcounted.insertRow_error hevicts
          (UInt64.lt_iff_toNat_lt.mpr (Nat.lt_trans (Nat.succ_pos _) hlack)) hspare herror
        generalize r.insertRow page h = out at herror
        obtain ⟨result, s, k⟩ := out
        cases herror
        refine ⟨fault, rfl, Or.inr ?_⟩
        rcases hwhy with hout | hmapping
        · rw [hnot] at hout
          cases hout
        · exact hmapping
    · have hloaded : r.loaded.toNat = n := hr.loaded
      have hover : r.isOver = true := by
        rw [hcounted.isOver_iff hnan hpos, hloaded, htop]
        exact Nat.lt_succ_self _
      obtain ⟨fault, hfault⟩ := hr.inv.ensureFreeSpace_refused
        (by rw [hcounted.options, hcounted.persistence]; exact hevicts) hover
        (by rw [hcounted.options, hloaded, htop]; exact hlack)
      have hdenied := hcounted.ensureFreeSpace_error hfault
      unfold Region.insertRow
      generalize r.ensureFreeSpace h = out at hfault
      obtain ⟨result, s, k⟩ := out
      cases hfault
      exact ⟨fault, rfl, Or.inl hdenied⟩

variable {o : RegionOptions} {pageSize : UInt32} {persistence : Bool}

/-- **The pool can always be filled just if it asks for no more pages than there are.** -/
theorem JustStarted.reserve (hr : JustStarted o page persistence r) (hpage : page ≠ 0)
    (hevicts : o.evicts persistence = true) (hrules : Rules.Evicts o pageSize) (host : Host) :
    (o.reachesPool (page + PageMemory.headerSize) = true →
        ∀ s k, Run RowCall r host s k → (s.ensureFreeSpace k).1 = some (.ok ()))
      ∧ (o.reachesPool (page + PageMemory.headerSize) = false →
        ∃ fault, (r.insertRows page
            ((o.watermark (page + PageMemory.headerSize)).floorNat + 2) host).1
            = some (.error fault)
          ∧ (fault.deniesVictim = true ∨ fault.isMapping = true)) := by
  have hspares := hr.sparesPages
  have hmark : r.watermark = o.watermark (page + PageMemory.headerSize) := by
    unfold watermark
    rw [hr.options, hr.systemPageSize]
  -- Where the watermark is no number no page is spared, so it is one in all that follows.
  have hnumber : o.sparesPages (page + PageMemory.headerSize) = true →
      r.watermark.isNaN = false ∧ r.watermark.isNegative = false := by
    intro hspare
    rw [hmark]
    cases hnan : o.threshold.isNaN with
    | false => exact RegionOptions.watermark_isNumber hrules hnan
    | true =>
      unfold RegionOptions.sparesPages Binary64.less at hspare
      rw [RegionOptions.watermark_isNaN hnan] at hspare
      cases hspare
  refine ⟨fun hreach s k hrun => ?_, fun hreach => ?_⟩
  · have hinv := (hr.inv host).run hrun
    have hcounted := (hr.counted host).run (hrun.mono fun _ _ hc => hc.client)
    refine hinv.ensureFreeSpace_ok fun hover => ?_
    have hspare : o.sparesPages (page + PageMemory.headerSize) = true := by
      have hle : s.loaded.toNat ≤ r.store.memory.total := by
        have hhanded := hinv.memory.handedOut_le
        rw [← hinv.memory.loaded, hcounted.further.total] at hhanded
        exact hhanded
      unfold isOver at hover
      rw [hcounted.watermark] at hover
      rw [← hspares]
      exact Binary64.less_ofNat_mono hle hover
    obtain ⟨hnan, hpos⟩ := hnumber hspare
    rw [RegionOptions.reachesPool, hspare, Bool.not_true, Bool.false_or, decide_eq_true_iff]
      at hreach
    rw [hcounted.isOver_iff hnan hpos, hmark] at hover
    rw [hcounted.options, hr.options]
    exact Nat.le_trans hreach hover
  · rw [RegionOptions.reachesPool, Bool.or_eq_false_iff, Bool.not_eq_false', decide_eq_false_iff_not,
      Nat.not_le] at hreach
    obtain ⟨hspare, hlack⟩ := hreach
    obtain ⟨hnan, hpos⟩ := hnumber hspare
    rw [← hmark] at hlack ⊢
    refine (hr.filled host).insertRows_denied _ (hr.counted host) hpage ?_ hnan hpos ?_ ?_ ?_ ?_
    · rw [hr.options, hr.persistence]
      exact hevicts
    · rw [hspares]
      exact hspare
    · rw [hr.options]
      exact hlack
    · exact Nat.zero_add _
    · exact Nat.zero_le _

end Region
end PageRegions
