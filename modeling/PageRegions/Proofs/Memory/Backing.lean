import PageRegions.Proofs.Memory.Allocation

/-!
# Segments that share no memory

The header of a page decides whether the page is allocated, so headers must not be written by
accident. Within a segment pages stand side by side. That pages of different segments do not overlap
is due to the provider: the blocks of segments are different (`Backed`), and they stay different
from those of chunks that are mapped later, whatever happens to the files meanwhile
(`Backed.later`).
-/

set_option autoImplicit false

namespace PageRegions
namespace PageMemory

variable {m m' : PageMemory} {h k : Host}

/-- Each segment shows the mapping of its chunk, and has a block of its own: no other segment has
it, and no file shows it except that of the chunk. -/
structure Backed (m : PageMemory) (h : Host) : Prop where
  cut : ∀ (i : Nat) (segment : Segment), m.segments[i]? = some segment → ∃ mapping : Mapping,
    m.provider.mappings[i]? = some mapping ∧ mapping.block? = some segment.block
      ∧ segment.pages = m.pagesIn mapping.length
  below : ∀ segment ∈ m.segments, segment.block < h.nextBlock
  named : ∀ (i : Nat) segment path, m.segments[i]? = some segment → h.files.Shows path segment.block →
    path.getLast? = some (Provider.chunkName i)
  apart : ∀ (i j : Nat) (segment other : Segment), m.segments[i]? = some segment →
    m.segments[j]? = some other → segment.block = other.block → i = j

theorem Stopped.backed (hm : m.Stopped) (h : Host) : m.Backed h := by
  have hnone : ∀ (i : Nat) segment, m.segments[i]? ≠ some segment := by
    rw [hm.segments]
    exact fun i segment => nofun
  exact {
    cut := fun i segment hseg => absurd hseg (hnone i segment)
    below := fun segment hmem => by
      obtain ⟨i, hi⟩ := List.getElem?_of_mem hmem
      exact absurd hi (hnone i segment)
    named := fun i segment _ hseg => absurd hseg (hnone i segment)
    apart := fun i _ segment _ hseg => absurd hseg (hnone i segment) }

/-- Files that are made later have new blocks, and so does memory that is mapped later. -/
theorem Backed.later (hb : m.Backed h) (hlater : h.Later k) : m.Backed k where
  cut := hb.cut
  below segment hmem := Nat.lt_of_lt_of_le (hb.below segment hmem) hlater.next
  named i segment path hseg hshows := by
    rcases hlater.files path segment.block hshows with hold | hnew
    · exact hb.named i segment path hseg hold
    · exact absurd (hb.below segment (List.mem_of_getElem? hseg)) (Nat.not_lt.mpr hnew)
  apart := hb.apart

theorem Backed.congr (hb : m.Backed h) (hsegments : m'.segments = m.segments)
    (hprovider : m'.provider = m.provider) (hpageSize : m'.pageSize = m.pageSize) :
    m'.Backed h := by
  have hpages : m'.pagesIn = m.pagesIn := by
    unfold pagesIn systemPageSize
    rw [hpageSize]
  exact {
    cut := by rw [hsegments, hprovider, hpages]; exact hb.cut
    below := by rw [hsegments]; exact hb.below
    named := by rw [hsegments]; exact hb.named
    apart := by rw [hsegments]; exact hb.apart }

/-! ## Mapping a segment -/

theorem getElem?_concat {α : Type} {l : List α} {x y : α} {i : Nat}
    (h : (l ++ [x])[i]? = some y) : l[i]? = some y ∨ i = l.length ∧ y = x := by
  rcases Nat.lt_trichotomy i l.length with hlt | rfl | hgt
  · rw [List.getElem?_append_left hlt] at h
    exact Or.inl h
  · rw [List.getElem?_concat_length] at h
    exact Or.inr ⟨rfl, (Option.some.inj h).symm⟩
  · rw [List.getElem?_eq_none (by rw [List.length_append, List.length_singleton]; omega)] at h
    cases h

/-- A segment has a block that is not one of those mapped before it. -/
theorem Backed.ne_block (hb : m.Backed h) (hlater : h.Later k) {block : Nat}
    (hbacks : Provider.Backs h k m.segments.length block) {i : Nat} {segment : Segment}
    (hseg : m.segments[i]? = some segment) : segment.block ≠ block := by
  rintro rfl
  have hlt := (List.getElem?_eq_some_iff.mp hseg).1
  rcases hbacks.origin with hnew | ⟨path, hshows⟩
  · exact absurd (hb.below segment (List.mem_of_getElem? hseg)) (Nat.not_lt.mpr hnew)
  · -- The file that shows the block would have the names of two chunks.
    have hname := (hb.later hlater).named i segment path hseg hshows
    rw [hbacks.named path hshows] at hname
    have := Provider.chunkName_injective (Option.some.inj hname)
    omega

theorem Backed.append (hb : m.Backed h) (hm : m.Layout) (hlater : h.Later k) {block : Nat}
    {length : UInt64} (hbacks : Provider.Backs h k m.segments.length block) {p : Provider}
    (hmappings : p.mappings = m.provider.mappings ++ [⟨some block, length⟩]) :
    ({ m with
      provider := p
      segments := m.segments ++ [⟨block, m.pagesIn length⟩]
      nextIndex := 0 } : PageMemory).Backed k where
  cut i segment hseg := by
    simp only [hmappings]
    rcases getElem?_concat hseg with hold | ⟨rfl, rfl⟩
    · obtain ⟨mapping, hmapping, hrest⟩ := hb.cut i segment hold
      have hlt := (List.getElem?_eq_some_iff.mp hmapping).1
      exact ⟨mapping, by rw [List.getElem?_append_left hlt, hmapping], hrest⟩
    · exact ⟨⟨some block, length⟩, by rw [← hm.mapped, List.getElem?_concat_length], rfl, rfl⟩
  below segment hmem := by
    rcases List.mem_append.mp hmem with hold | hnew
    · exact (hb.later hlater).below segment hold
    · rw [List.mem_singleton.mp hnew]
      exact hbacks.below
  named i segment path hseg hshows := by
    rcases getElem?_concat hseg with hold | ⟨rfl, rfl⟩
    · exact (hb.later hlater).named i segment path hold hshows
    · exact hbacks.named path hshows
  apart i j segment other hseg hother heq := by
    rcases getElem?_concat hseg with hold | ⟨rfl, rfl⟩ <;>
      rcases getElem?_concat hother with hold' | ⟨rfl, rfl⟩
    · exact hb.apart i j segment other hold hold' heq
    · exact absurd heq (hb.ne_block hlater hbacks hold)
    · exact absurd heq.symm (hb.ne_block hlater hbacks hold')
    · rfl

theorem mapNext_plain (hplain : m.provider.Plain) (h : Host) :
    (m.mapNext h).2.1.provider.Plain := by
  have hnext := m.provider.next_next h
  unfold mapNext
  generalize m.provider.next h = out at hnext
  cases hnext with
  | exhausted | failed => exact hplain
  | mapped block length q k hsize hbacking =>
    exact fun directory heq => hplain directory (hbacking.symm.trans heq)

theorem Backed.mapNext (hb : m.Backed h) (hm : m.Layout) (hsound : h.Sound)
    (hplain : m.provider.Plain) (hmap : m.mapNext h = (.ok (), m', k)) : m'.Backed k := by
  have hnext := m.provider.next_next h
  unfold PageMemory.mapNext at hmap
  generalize m.provider.next h = out at hnext hmap
  cases hnext with
  | exhausted | failed => cases hmap
  | mapped block length q k' hsize hbacking hchunks hmappings hblocks hlater hbacks =>
    cases hmap
    have hbacks := hbacks hsound hplain
    rw [hm.mapped] at hbacks
    exact hb.append hm hlater hbacks hmappings

theorem Backed.mapUntilUnused (hb : m.Backed h) (hm : m.Layout) (hsound : h.Sound)
    (hplain : m.provider.Plain) {result : Except Fault Unit}
    (hmap : m.mapUntilUnused h = (result, m', k)) : m'.Backed k ∧ m'.provider.Plain := by
  fun_induction m.mapUntilUnused h with
  | case1 m h hunused =>
    cases hmap
    exact ⟨hb, hplain⟩
  | case2 m h hfull fault m₁ h₁ hnext =>
    cases hmap
    have hlater := m.mapNext_later h
    rw [hnext] at hlater
    obtain ⟨-, hfault⟩ := hm.mapNext (by simpa using hfull) hnext
    obtain ⟨rfl, -⟩ := hfault fault rfl
    exact ⟨hb.later hlater, hplain⟩
  | case3 m h hfull m₁ h₁ hnext ih =>
    have hlater := m.mapNext_later h
    have hplain' := mapNext_plain hplain h
    rw [hnext] at hlater hplain'
    obtain ⟨hext, -⟩ := hm.mapNext (by simpa using hfull) hnext
    exact ih (hb.mapNext hm hsound hplain hnext) hext.layout (hlater.sound hsound) hplain' hmap

/-! ## Pages -/

/-- A page with its header lies inside the mapping of its segment. -/
theorem Backed.within (hb : m.Backed h) {page : PageId} {block address : Nat}
    (hpage : m.header? page = some (block, address)) :
    ∃ mapping, m.provider.mappings[page.segment.toNat]? = some mapping
      ∧ mapping.block? = some block
      ∧ address + m.systemPageSize.toNat ≤ mapping.length.toNat := by
  obtain ⟨segment, hseg, hin, -, hout⟩ := header?_eq_some.mp hpage
  obtain ⟨mapping, hmapping, hblock, hpages⟩ := hb.cut _ segment hseg
  cases hout
  refine ⟨mapping, hmapping, hblock, ?_⟩
  rw [hpages] at hin
  -- The count of pages is cut to 32 bits, which makes it smaller if anything.
  have hfits : page.index.toNat + 1 ≤ mapping.length.toNat / m.systemPageSize.toNat :=
    Nat.le_trans hin (Nat.mod_le _ _)
  calc page.index.toNat * m.systemPageSize.toNat + m.systemPageSize.toNat
      = (page.index.toNat + 1) * m.systemPageSize.toNat := (Nat.succ_mul _ _).symm
    _ ≤ mapping.length.toNat / m.systemPageSize.toNat * m.systemPageSize.toNat :=
        Nat.mul_le_mul_right _ hfits
    _ ≤ mapping.length.toNat := Nat.div_mul_le_self _ _

/-- **Pages do not overlap**: they lie in different blocks or one behind the other. -/
theorem Backed.disjoint (hb : m.Backed h) {page page' : PageId} (hne : page ≠ page')
    {block address block' address' : Nat} (hpage : m.header? page = some (block, address))
    (hpage' : m.header? page' = some (block', address')) :
    block ≠ block' ∨ address + m.systemPageSize.toNat ≤ address'
      ∨ address' + m.systemPageSize.toNat ≤ address := by
  rcases header?_apart hpage hpage' with ⟨hindex, -⟩ | hapart
  · refine Or.inl ?_
    rintro rfl
    obtain ⟨segment, hseg, -, -, hout⟩ := header?_eq_some.mp hpage
    obtain ⟨segment', hseg', -, -, hout'⟩ := header?_eq_some.mp hpage'
    have hblock := (Prod.mk.inj hout).1.symm.trans (Prod.mk.inj hout').1
    have hsegment := UInt32.toNat_inj.mp (hb.apart _ _ segment segment' hseg hseg' hblock)
    exact hne (congrArg₂ PageId.mk hsegment hindex)
  · exact Or.inr hapart

end PageMemory
end PageRegions
