import PageRegions.Proofs.Memory.Announcing
import PageRegions.Proofs.Memory.Pages
import PageRegions.Proofs.Memory.Segments

/-!
# No page is handed out twice

A page that is allocated is the next one behind the position of page memory, as long as none is given
back, and page memory never moves back. So a page behind the position (`Passed`) is not handed out
again.

That does not take much. `Layout` knows what the segments are cut into, for which the size of a page
must fit in its word. Here it is enough that page ids do not wrap: there are few segments, and the
pages of one are counted by a word. So this holds of pages of any size, also of those whose headers
lie in other pages, and whatever stands in memory.
-/

set_option autoImplicit false

namespace PageRegions
namespace PageMemory

/-- Whether a page is behind the position of page memory. -/
def Passed (m : PageMemory) (page : PageId) : Prop :=
  page.segment.toNat + 1 < m.segments.length
    ∨ page.segment.toNat + 1 = m.segments.length ∧ page.index.toNat < m.nextIndex

/-- Page memory to which no page was given back, with no more segments and pages than there are
ids for. -/
structure Onward (m : PageMemory) : Prop where
  chunks : m.provider.chunks.length ≤ Segments.most
  mapped : m.segments.length ≤ m.provider.mappings.length
  few : m.segments.length ≤ Segments.most
  counted : ∀ s ∈ m.segments, s.pages < 2 ^ 32
  recycled : m.recycled = []

theorem onward_fresh (o : RegionOptions) (pageSize : UInt32) (backing : Backing) :
    (fresh o pageSize backing).Onward :=
  ⟨Nat.zero_le _, Nat.le_refl _, Nat.zero_le _, nofun, rfl⟩

/-- Page memory that moved on, if at all. -/
structure Moved (m m' : PageMemory) : Prop where
  onward : m'.Onward
  passed : ∀ page, m.Passed page → m'.Passed page

variable {m m' m'' : PageMemory} {h k : Host}

theorem Moved.trans (hm : Moved m m') (hm' : Moved m' m'') : Moved m m'' :=
  ⟨hm'.onward, fun page hpage => hm'.passed page (hm.passed page hpage)⟩

/-! ## Mapping segments -/

theorem Onward.mapNext (hm : m.Onward) (h : Host) : Moved m (m.mapNext h).2.1 := by
  have hnext := m.provider.next_next h
  unfold PageMemory.mapNext
  generalize m.provider.next h = out at hnext
  cases hnext with
  | exhausted => exact ⟨hm, fun _ hpage => hpage⟩
  | failed => exact ⟨⟨hm.chunks, hm.mapped, hm.few, hm.counted, hm.recycled⟩, fun _ hpage => hpage⟩
  | mapped block length provider k hsize hbacking hchunks hmappings =>
    have hlt := (List.getElem?_eq_some_iff.mp hsize).1
    have hmapped := hm.mapped
    have hfew := hm.chunks
    refine ⟨?_, fun page hpage => ?_⟩
    · exact {
        chunks := by
          rw [hchunks]
          exact hm.chunks
        mapped := by
          simp only [hmappings, List.length_append, List.length_singleton]
          exact Nat.succ_le_succ hm.mapped
        few := by
          simp only [List.length_append, List.length_singleton]
          omega
        counted := fun s hs => by
          rcases List.mem_append.mp hs with hs | hs
          · exact hm.counted s hs
          · rw [List.mem_singleton.mp hs]
            exact m.pagesIn_lt length
        recycled := hm.recycled }
    -- All pages of the segments before are behind the new one.
    · refine Or.inl ?_
      simp only [List.length_append, List.length_singleton]
      rcases hpage with hlt | ⟨heq, -⟩
      · exact Nat.lt_succ_of_lt hlt
      · exact heq.trans_lt (Nat.lt_succ_self _)

theorem Onward.mapUntilUnused (hm : m.Onward) (h : Host) :
    Moved m (m.mapUntilUnused h).2.1 := by
  fun_induction m.mapUntilUnused h with
  | case1 m h hunused => exact ⟨hm, fun _ hpage => hpage⟩
  | case2 m h hfull fault m₁ h₁ hnext =>
    have hmoved := hm.mapNext h
    rw [hnext] at hmoved
    exact hmoved
  | case3 m h hfull m₁ h₁ hnext ih =>
    have hmoved := hm.mapNext h
    rw [hnext] at hmoved
    exact hmoved.trans (ih hmoved.onward)

theorem mapUntilUnused_hasUnused (hmap : m.mapUntilUnused h = (.ok (), m', k)) :
    m'.hasUnused = true := by
  fun_induction m.mapUntilUnused h with
  | case1 m h hunused =>
    cases hmap
    exact hunused
  | case2 => cases hmap
  | case3 m h hfull m₁ h₁ hnext ih => exact ih hmap

/-! ## Allocating a page -/

/-- The next page has its position for its id. -/
theorem Onward.nextPage_toNat (hm : m.Onward) (hunused : m.hasUnused = true) :
    m.nextPage.segment.toNat + 1 = m.segments.length ∧ m.nextPage.index.toNat = m.nextIndex := by
  have hlt := hasUnused_iff.mp hunused
  unfold lastPages at hlt
  cases hlast : m.segments.getLast? with
  | none =>
    rw [hlast] at hlt
    exact absurd hlt (Nat.not_lt_zero _)
  | some segment =>
    rw [hlast] at hlt
    have hmem := List.mem_of_getLast? hlast
    have hcounted := hm.counted segment hmem
    have hpos := List.length_pos_of_mem hmem
    have hfew := hm.few
    change m.nextIndex < segment.pages at hlt
    unfold Segments.most at hfew
    unfold nextPage
    rw [UInt32.toNat_ofNat', UInt32.toNat_ofNat', Nat.mod_eq_of_lt (by omega),
      Nat.mod_eq_of_lt (by omega)]
    exact ⟨by omega, rfl⟩

theorem Onward.nextPage_new (hm : m.Onward) (hunused : m.hasUnused = true) :
    ¬ m.Passed m.nextPage := by
  obtain ⟨hsegment, hindex⟩ := hm.nextPage_toNat hunused
  rintro (hlt | ⟨-, hlt⟩)
  · omega
  · omega

/-- **A page that is allocated is a new one**, and those behind it stay behind. -/
theorem Onward.allocate (hm : m.Onward) (h : Host) :
    Moved m (m.allocate h).2.1
      ∧ ∀ page, (m.allocate h).1 = .ok page → ¬ m.Passed page ∧ (m.allocate h).2.1.Passed page := by
  have hmoved := hm.mapUntilUnused h
  unfold PageMemory.allocate
  split
  · exact ⟨⟨hm, fun _ hpage => hpage⟩, nofun⟩
  · rw [hm.recycled]
    simp only
    rcases hmap : m.mapUntilUnused h with ⟨fault | _, m₁, k⟩ <;> rw [hmap] at hmoved
    · simp only
      split
      · exact ⟨hmoved, nofun⟩
      · exact ⟨hmoved, nofun⟩
    · have hunused := mapUntilUnused_hasUnused hmap
      obtain ⟨hsegment, hindex⟩ := hmoved.onward.nextPage_toNat hunused
      refine ⟨⟨?_, fun page hpage => ?_⟩, fun page hpage => ?_⟩
      · have honward := hmoved.onward
        exact ⟨honward.chunks, honward.mapped, honward.few, honward.counted, honward.recycled⟩
      · exact (hmoved.passed page hpage).imp_right fun hlast => ⟨hlast.1, Nat.lt_succ_of_lt hlast.2⟩
      · have heq : m₁.nextPage = page := Except.ok.inj hpage
        rw [← heq]
        refine ⟨fun hpassed => ?_, Or.inr ⟨hsegment, ?_⟩⟩
        · exact hmoved.onward.nextPage_new hunused (hmoved.passed _ hpassed)
        · exact hindex.trans_lt (Nat.lt_succ_self _)

/-! ## Starting and stopping -/

/-- Page memory that is stopped has no segments. -/
def Cleared (m : PageMemory) : Prop := m.started = false → m.segments = []

theorem Onward.withoutSegments (hm : m.Onward) {p : Provider}
    (hp : p.chunks.length ≤ Segments.most) :
    ({ m with provider := p, segments := [] } : PageMemory).Onward :=
  ⟨hp, Nat.zero_le _, Nat.zero_le _, nofun, hm.recycled⟩

theorem Onward.start (hm : m.Onward) (hcleared : m.Cleared) (h : Host) :
    (m.start h).2.1.Onward ∧ (m.start h).2.1.Cleared := by
  have hannounced := m.provider.announce_announcement (Segments.sizes m.initialSize m.maxSize) h
  unfold PageMemory.start
  by_cases hstarted : m.started = true
  · rw [if_pos hstarted]
    exact ⟨hm, hcleared⟩
  rw [if_neg hstarted]
  generalize m.provider.announce (Segments.sizes m.initialSize m.maxSize) h = out at hannounced
  have hnone := hcleared (Bool.not_eq_true _ ▸ hstarted)
  cases hannounced with
  | failed fault k =>
    simp only
    have hchunks := (m.provider.shutdown_cases k).2.1
    exact ⟨hm.withoutSegments (by rw [hchunks]; exact hm.chunks), fun _ => rfl⟩
  | announced p k _ hchunks =>
    have hsizes : p.chunks.length ≤ Segments.most := by
      rw [hchunks]
      exact Segments.sizes_length _ _
    have hready : ({ m with provider := p } : PageMemory).Onward := by
      have honward := hm.withoutSegments hsizes
      rw [← hnone] at honward
      exact honward
    have hmoved := hready.mapNext k
    simp only
    generalize ({ m with provider := p } : PageMemory).mapNext k = mapped at hmoved
    have honward := hmoved.onward
    obtain ⟨fault | _, m₁, k₁⟩ := mapped
    · have hfew : (m₁.provider.shutdown k₁).2.1.chunks.length ≤ Segments.most := by
        rw [(m₁.provider.shutdown_cases k₁).2.1]
        exact honward.chunks
      exact ⟨honward.withoutSegments hfew, fun _ => rfl⟩
    · exact ⟨⟨honward.chunks, honward.mapped, honward.few, honward.counted, honward.recycled⟩,
        nofun⟩

theorem Onward.stop (hm : m.Onward) (hcleared : m.Cleared) (h : Host) :
    (m.stop h).2.1.Onward ∧ (m.stop h).2.1.Cleared := by
  unfold PageMemory.stop
  split
  · exact ⟨hm, hcleared⟩
  · have hchunks := (m.provider.shutdown_cases h).2.1
    refine ⟨⟨?_, Nat.zero_le _, Nat.zero_le _, nofun, rfl⟩, fun _ => rfl⟩
    change (m.provider.shutdown h).2.1.chunks.length ≤ _
    rw [hchunks]
    exact hm.chunks

end PageMemory
end PageRegions
