import PageRegions.Proofs.Memory.Announcing
import PageRegions.Proofs.Memory.Pages
import PageRegions.Proofs.Memory.Segments

/-!
# Allocating pages

A page that is allocated was given back before, or it is the next one behind the position; if there
is none either, segments are mapped until there is (`Supply`). Mapping segments makes no pages
(`Extended`), and starting page memory maps one (`Starting`).

If no page is ever given back, allocating one has few outcomes (`Allocation`): a page that was not
allocated before, or a fault, which means that memory is used up unless a mapping failed. Either way
page memory is only `Further` on.
-/

set_option autoImplicit false

namespace PageRegions
namespace PageMemory

variable {m : PageMemory} {h : Host}

/-! ## Mapping a segment -/

/-- Page memory that has handed out more pages, or mapped more segments, and is the same else. -/
structure Further (m m' : PageMemory) : Prop where
  rest : m' = { m with
    provider := m'.provider
    segments := m'.segments
    nextIndex := m'.nextIndex
    loaded := m'.loaded }
  chunks : m'.provider.chunks = m.provider.chunks

namespace Further

variable {m' m'' : PageMemory}

theorem refl (m : PageMemory) : Further m m := ⟨rfl, rfl⟩

theorem trans (h : Further m m') (h' : Further m' m'') : Further m m'' := by
  refine ⟨?_, h'.chunks.trans h.chunks⟩
  rw [h'.rest, h.rest]

theorem started (h : Further m m') : m'.started = m.started := by rw [h.rest]

theorem pageSize (h : Further m m') : m'.pageSize = m.pageSize := by rw [h.rest]

theorem total (h : Further m m') : m'.total = m.total := by
  have hpages : m'.pagesIn = m.pagesIn := by
    rw [h.rest]
    rfl
  rw [PageMemory.total, PageMemory.total, h.chunks, hpages]

end Further

/-- Mapping a segment does not make pages. The segment before it has to be used up: its pages that
were not handed out would count as if they were. -/
theorem header?_append (segment : Segment) (provider : Provider)
    (hused : m.nextIndex = m.lastPages) (page : PageId) :
    ({ m with
      provider := provider
      segments := m.segments ++ [segment]
      nextIndex := 0 } : PageMemory).header? page = m.header? page := by
  refine Option.ext fun out => ?_
  rw [header?_eq_some, header?_eq_some]
  simp only [List.length_append, List.length_singleton, Nat.not_lt_zero, imp_false]
  constructor
  · rintro ⟨found, hseg, hin, hlast, hout⟩
    have hlt : page.segment.toNat < m.segments.length := by
      have := (List.getElem?_eq_some_iff.mp hseg).1
      rw [List.length_append, List.length_singleton] at this
      omega
    rw [List.getElem?_append_left hlt] at hseg
    refine ⟨found, hseg, hin, fun heq => ?_, hout⟩
    rw [hused, lastPages, List.getLast?_eq_getElem?, ← heq, Nat.add_sub_cancel, hseg]
    exact hin
  · rintro ⟨found, hseg, hin, -, hout⟩
    have hlt := (List.getElem?_eq_some_iff.mp hseg).1
    refine ⟨found, ?_, hin, by omega, hout⟩
    rw [List.getElem?_append_left hlt, hseg]

/-- Page memory that has mapped more segments. The pages behind its position are those from before,
and no byte of memory is changed. -/
structure Extended (m : PageMemory) (h : Host) (m' : PageMemory) (k : Host) : Prop where
  rest : m' = { m with
    provider := m'.provider
    segments := m'.segments
    nextIndex := m'.nextIndex }
  layout : m'.Layout
  chunks : m'.provider.chunks = m.provider.chunks
  handedOut : m'.handedOut = m.handedOut
  headers : ∀ page, m'.header? page = m.header? page
  blocks : k.blocks = h.blocks

namespace Extended

variable {m' m'' : PageMemory} {k k' : Host}

theorem refl (hm : m.Layout) (hblocks : k.blocks = h.blocks) : Extended m h m k :=
  ⟨rfl, hm, rfl, rfl, fun _ => rfl, hblocks⟩

theorem trans (he : Extended m h m' k) (he' : Extended m' k m'' k') : Extended m h m'' k' where
  rest := by rw [he'.rest, he.rest]
  layout := he'.layout
  chunks := he'.chunks.trans he.chunks
  handedOut := he'.handedOut.trans he.handedOut
  headers page := (he'.headers page).trans (he.headers page)
  blocks := he'.blocks.trans he.blocks

theorem loaded (he : Extended m h m' k) : m'.loaded = m.loaded := by rw [he.rest]

theorem recycled (he : Extended m h m' k) : m'.recycled = m.recycled := by rw [he.rest]

theorem further (he : Extended m h m' k) : Further m m' where
  rest := by rw [he.rest]
  chunks := he.chunks

theorem inv (he : Extended m h m' k) (hm : m.Inv h) : m'.Inv k where
  toLayout := he.layout
  recycled := he.recycled.trans hm.recycled
  loaded := by rw [he.loaded, he.handedOut, hm.loaded]
  marked page block address hpage := by
    rw [he.headers] at hpage
    unfold isMarked
    rw [Host.block_congr he.blocks]
    exact hm.marked page block address hpage

end Extended

/-- Page memory whose chunks are all mapped and whose pages were all handed out at some time. -/
def UsedUp (m : PageMemory) : Prop :=
  m.segments.length = m.provider.chunks.length ∧ m.nextIndex = m.lastPages

theorem mapNext_later (m : PageMemory) (h : Host) : h.Later (m.mapNext h).2.2 := by
  have hnext := m.provider.next_next h
  unfold mapNext
  generalize m.provider.next h = out at hnext
  cases hnext with
  | exhausted => exact .refl h
  | failed fault k hfault hblocks hlater => exact hlater
  | mapped block length q k hsize hbacking hchunks hmappings hblocks hlater => exact hlater

theorem mapUntilUnused_later (m : PageMemory) (h : Host) :
    h.Later (m.mapUntilUnused h).2.2 := by
  fun_induction m.mapUntilUnused h with
  | case1 m h hunused => exact .refl h
  | case2 m h hfull fault m₁ h₁ hnext =>
    have hlater := m.mapNext_later h
    rw [hnext] at hlater
    exact hlater
  | case3 m h hfull m₁ h₁ hnext ih =>
    have hlater := m.mapNext_later h
    rw [hnext] at hlater
    exact hlater.trans ih

theorem Layout.mapNext (hm : m.Layout) (hfull : m.hasUnused = false) {result : Except Fault Unit}
    {m' : PageMemory} {k : Host} (hmap : m.mapNext h = (result, m', k)) :
    Extended m h m' k ∧ ∀ fault, result = .error fault → m' = m
      ∧ ((fault = .chunksExhausted ∧ m'.UsedUp) ∨ fault.isMapping = true) := by
  have hused : m.nextIndex = m.lastPages := by
    have hnot := Bool.eq_false_iff.mp hfull
    rw [Ne, hasUnused_iff] at hnot
    have hle := hm.next_le
    omega
  have hnext := m.provider.next_next h
  unfold PageMemory.mapNext at hmap
  generalize m.provider.next h = out at hnext hmap
  cases hnext with
  | exhausted hnone =>
    cases hmap
    refine ⟨.refl hm rfl, fun fault hfault => ⟨rfl, Or.inl ?_⟩⟩
    cases hfault
    have hlen := List.getElem?_eq_none_iff.mp hnone
    rw [hm.mapped] at hlen
    exact ⟨rfl, Nat.le_antisymm hm.mapped_le hlen, hused⟩
  | failed fault k hfault hblocks hlater =>
    cases hmap
    refine ⟨.refl hm hblocks, fun fault' heq => ⟨rfl, Or.inr ?_⟩⟩
    cases heq
    exact hfault
  | mapped block length provider k hsize hbacking hchunks hmappings hblocks hlater =>
    cases hmap
    rw [hm.mapped] at hsize
    have hlt := (List.getElem?_eq_some_iff.mp hsize).1
    refine ⟨{
      rest := rfl
      layout := {
        size := hm.size
        few := by rw [hchunks]; exact hm.few
        mapped := by rw [hmappings, List.length_append, List.length_append, hm.mapped]; rfl
        mapped_le := by rw [hchunks, List.length_append]; exact hlt
        sized := ?_
        next_le := Nat.zero_le _ }
      chunks := hchunks
      handedOut := ?_
      headers := header?_append ⟨block, m.pagesIn length⟩ provider hused
      blocks := hblocks }, nofun⟩
    · simp only [hchunks, List.length_append, List.length_singleton, List.map_append,
        List.map_singleton]
      rw [List.take_add_one, hsize, List.map_append, hm.sized]
      rfl
    · have hlast := m.sum_dropLast
      unfold handedOut
      simp only [List.dropLast_concat]
      omega

theorem Layout.mapUntilUnused (hm : m.Layout) {result : Except Fault Unit}
    {m' : PageMemory} {k : Host} (hmap : m.mapUntilUnused h = (result, m', k)) :
    Extended m h m' k ∧ (result = .ok () → m'.hasUnused = true)
      ∧ ∀ fault, result = .error fault →
        (fault = .chunksExhausted ∧ m'.UsedUp) ∨ fault.isMapping = true := by
  fun_induction m.mapUntilUnused h with
  | case1 m h hunused =>
    cases hmap
    exact ⟨.refl hm rfl, fun _ => hunused, nofun⟩
  | case2 m h hfull fault m₁ h₁ hnext =>
    cases hmap
    obtain ⟨hextended, hfault⟩ := hm.mapNext (by simpa using hfull) hnext
    exact ⟨hextended, nofun, fun fault' h => (hfault fault' h).2⟩
  | case3 m h hfull m₁ h₁ hnext ih =>
    obtain ⟨hextended, -⟩ := hm.mapNext (by simpa using hfull) hnext
    obtain ⟨hextended', hok, hfault⟩ := ih hextended.layout hmap
    exact ⟨hextended.trans hextended', hok, hfault⟩

/-! ## Allocating a page -/

/-- Page memory behind its next page, which is allocated. -/
def handOutNext (m : PageMemory) : PageMemory :=
  { m with nextIndex := m.nextIndex + 1, loaded := m.loaded + 1 }

theorem Layout.lastPages_lt (hm : m.Layout) : m.lastPages < 2 ^ 32 := by
  unfold lastPages
  cases hlast : m.segments.getLast? with
  | none => exact Nat.two_pow_pos 32
  | some segment =>
    have hmem := List.mem_map_of_mem (f := (·.pages)) (List.mem_of_getLast? hlast)
    rw [hm.sized] at hmem
    obtain ⟨size, -, heq⟩ := List.mem_map.mp hmem
    change segment.pages < 2 ^ 32
    rw [← heq]
    exact m.pagesIn_lt size

theorem Layout.nextPage_toNat (hm : m.Layout) :
    m.nextPage.segment.toNat = m.segments.length - 1 ∧ m.nextPage.index.toNat = m.nextIndex := by
  have hlen : m.segments.length ≤ 16 := hm.mapped_le.trans hm.few
  have hnext : m.nextIndex < 2 ^ 32 := Nat.lt_of_le_of_lt hm.next_le hm.lastPages_lt
  unfold nextPage
  rw [UInt32.toNat_ofNat', UInt32.toNat_ofNat', Nat.mod_eq_of_lt (by omega),
    Nat.mod_eq_of_lt hnext]
  exact ⟨rfl, rfl⟩

theorem Layout.eq_nextPage_iff (hm : m.Layout) {page : PageId} :
    page = m.nextPage
      ↔ page.segment.toNat = m.segments.length - 1 ∧ page.index.toNat = m.nextIndex := by
  obtain ⟨hsegment, hindex⟩ := hm.nextPage_toNat
  rw [← hsegment, ← hindex, UInt32.toNat_inj, UInt32.toNat_inj]
  constructor
  · rintro rfl
    exact ⟨rfl, rfl⟩
  · rintro ⟨hs, hi⟩
    exact congrArg₂ PageId.mk hs hi

theorem Layout.header?_nextPage (hm : m.Layout) : m.header? m.nextPage = none := by
  obtain ⟨hsegment, hindex⟩ := hm.nextPage_toNat
  refine Option.eq_none_iff_forall_ne_some.mpr fun out hout => ?_
  obtain ⟨segment, hseg, -, hlast, -⟩ := header?_eq_some.mp hout
  have hlt := (List.getElem?_eq_some_iff.mp hseg).1
  have := hlast (by omega)
  omega

theorem Layout.header?_handOutNext_self (hm : m.Layout) (hunused : m.hasUnused = true) :
    ∃ out, m.handOutNext.header? m.nextPage = some out := by
  have hlt := hasUnused_iff.mp hunused
  obtain ⟨hsegment, hindex⟩ := hm.nextPage_toNat
  unfold lastPages at hlt
  cases hlast : m.segments.getLast? with
  | none =>
    rw [hlast] at hlt
    exact absurd hlt (Nat.not_lt_zero _)
  | some segment =>
    rw [hlast] at hlt
    rw [List.getLast?_eq_getElem?, ← hsegment] at hlast
    refine ⟨_, header?_eq_some.mpr ⟨segment, hlast, by rw [hindex]; exact hlt, fun _ => ?_, rfl⟩⟩
    rw [hindex]
    exact Nat.lt_succ_self m.nextIndex

theorem Layout.header?_handOutNext_other (hm : m.Layout) {page : PageId} (hne : page ≠ m.nextPage) :
    m.handOutNext.header? page = m.header? page := by
  rw [Ne, hm.eq_nextPage_iff, not_and] at hne
  refine Option.ext fun out => ?_
  rw [header?_eq_some, header?_eq_some]
  constructor
  · rintro ⟨segment, hseg, hin, hlast, hout⟩
    refine ⟨segment, hseg, hin, fun heq => ?_, hout⟩
    have hle := hlast heq
    have hother := hne (by omega)
    change page.index.toNat < m.nextIndex + 1 at hle
    omega
  · rintro ⟨segment, hseg, hin, hlast, hout⟩
    exact ⟨segment, hseg, hin, fun heq => Nat.lt_succ_of_lt (hlast heq), hout⟩

theorem Layout.handOutNext (hm : m.Layout) (hunused : m.hasUnused = true) :
    m.handOutNext.Layout :=
  { hm with next_le := hasUnused_iff.mp hunused }

theorem handedOut_handOutNext (m : PageMemory) : m.handOutNext.handedOut = m.handedOut + 1 := by
  unfold handedOut
  exact (Nat.add_assoc _ _ _).symm

/-- Pages have the same index, or in their blocks they stand a whole page apart. -/
theorem header?_apart {page page' : PageId} {n n' a a' : Nat}
    (hpage : m.header? page = some (n, a)) (hpage' : m.header? page' = some (n', a')) :
    (page.index = page'.index ∧ a = a')
      ∨ a + m.systemPageSize.toNat ≤ a' ∨ a' + m.systemPageSize.toNat ≤ a := by
  obtain ⟨_, -, -, -, hout⟩ := header?_eq_some.mp hpage
  obtain ⟨_, -, -, -, hout'⟩ := header?_eq_some.mp hpage'
  rw [Prod.mk.injEq] at hout hout'
  rw [hout.2, hout'.2, ← UInt32.toNat_inj]
  generalize m.systemPageSize.toNat = size
  generalize page.index.toNat = i
  generalize page'.index.toNat = j
  rcases Nat.lt_trichotomy i j with hlt | rfl | hgt
  · have := Nat.mul_le_mul_right size hlt
    rw [Nat.succ_mul] at this
    exact Or.inr (Or.inl this)
  · exact Or.inl ⟨rfl, rfl⟩
  · have := Nat.mul_le_mul_right size hgt
    rw [Nat.succ_mul] at this
    exact Or.inr (Or.inr this)

theorem Inv.handOutNext (hm : m.Inv h) (hunused : m.hasUnused = true) :
    m.handOutNext.Inv (m.handOutNext.mark m.nextPage h) := by
  obtain ⟨⟨n, a⟩, hself⟩ := hm.header?_handOutNext_self hunused
  have htotal := hm.total_lt
  have hhanded := hm.handedOut_le
  have hsystem := hm.systemPageSize_eq
  refine {
    toLayout := hm.toLayout.handOutNext hunused
    recycled := hm.recycled
    loaded := ?_
    marked := fun page block address hpage => ?_ }
  · have hl := hm.loaded
    rw [handedOut_handOutNext]
    change (m.loaded + 1).toNat = m.handedOut + 1
    rw [UInt64.toNat_add, hl, UInt64.toNat_one, Nat.mod_eq_of_lt (by omega)]
  · unfold mark
    rw [hself]
    refine isMarked_write ?_
    -- Marking the new page does not overwrite the mark of another, as headers do not overlap.
    by_cases heq : page = m.nextPage
    · rw [heq, hself] at hpage
      cases hpage
      exact Or.inl ⟨rfl, rfl⟩
    · have hold := hpage
      rw [hm.header?_handOutNext_other heq] at hold
      have hapart := header?_apart hself hpage
      change _ ∨ a + m.systemPageSize.toNat ≤ _ ∨ _ + m.systemPageSize.toNat ≤ a at hapart
      exact Or.inr ⟨hm.marked page block address hold, by omega⟩

theorem kind_of_isMapping {fault : Fault} (hfault : fault.isMapping = true) :
    fault.kind ≠ .incomplete := by
  cases fault <;> cases hfault <;> nofun

/-- Where the page comes from that is to be allocated, or why there is none. -/
inductive Supply (m : PageMemory) (h : Host) : Except Fault PageId × PageMemory × Host → Prop
  | refused (stopped : m.started = false) : Supply m h (.error (.memoryNotStarted m.name), m, h)
  /-- The page that was given back last is handed out again. -/
  | recycled (page : PageId) (more : List PageId) (started : m.started = true)
      (recycled : m.recycled = page :: more) :
      Supply m h ({ m with recycled := more }.handOut page h)
  | usedUp (m' : PageMemory) (k : Host) (started : m.started = true) (recycled : m.recycled = [])
      (mapped : m.mapUntilUnused h = (.error .chunksExhausted, m', k)) (usedUp : m'.UsedUp) :
      Supply m h (.error (.outOfMemory m.name m.initialSize m.maxSize m.loaded), m', k)
  | unmapped (fault : Fault) (m' : PageMemory) (k : Host) (started : m.started = true)
      (recycled : m.recycled = []) (mapped : m.mapUntilUnused h = (.error fault, m', k))
      (mapping : fault.isMapping = true) : Supply m h (.error fault, m', k)
  | next (m' : PageMemory) (k : Host) (started : m.started = true) (recycled : m.recycled = [])
      (mapped : m.mapUntilUnused h = (.ok (), m', k)) (unused : m'.hasUnused = true) :
      Supply m h (.ok m'.nextPage, m'.handOutNext, m'.handOutNext.mark m'.nextPage k)

theorem Layout.supply (hm : m.Layout) (h : Host) : Supply m h (m.allocate h) := by
  unfold allocate
  by_cases hstarted : m.started = true
  · rw [if_neg (by rw [hstarted]; exact Bool.false_ne_true)]
    split
    · next page more hrecycled => exact .recycled page more hstarted hrecycled
    · next hrecycled =>
      rcases hmap : m.mapUntilUnused h with ⟨fault | _, m', k⟩ <;> simp only
      · obtain ⟨hext, -, hfault⟩ := hm.mapUntilUnused hmap
        rcases hfault fault rfl with ⟨rfl, hused⟩ | hmapping
        -- Only this fault is reported as memory being used up; others are passed on.
        · rw [if_pos (show Fault.chunksExhausted.kind = .incomplete from rfl), hext.rest]
          rw [hext.rest] at hmap hused
          exact .usedUp _ k hstarted hrecycled hmap hused
        · rw [if_neg (kind_of_isMapping hmapping)]
          exact .unmapped fault m' k hstarted hrecycled hmap hmapping
      · obtain ⟨-, hok, -⟩ := hm.mapUntilUnused hmap
        exact .next m' k hstarted hrecycled hmap (hok rfl)
  · rw [Bool.not_eq_true] at hstarted
    rw [if_pos (by rw [hstarted]; rfl)]
    exact .refused hstarted

/-- What allocating a page can end in. -/
inductive Allocation (m : PageMemory) (h : Host) :
    Except Fault PageId × PageMemory × Host → Prop
  /-- A page is allocated that was not, and no other. -/
  | allocated (page : PageId) (m' : PageMemory) (k : Host) (started : m.started = true)
      (new : m.header? page = none)
      (headers : ∀ x, (m'.header? x).isSome = (decide (x = page) || (m.header? x).isSome))
      (inv : m'.Inv k) (further : Further m m') (loaded : m'.loaded.toNat = m.loaded.toNat + 1) :
      Allocation m h (.ok page, m', k)
  /-- No page is allocated; segments may have been mapped meanwhile. -/
  | failed (fault : Fault) (m' : PageMemory) (k : Host)
      (headers : ∀ x, m'.header? x = m.header? x)
      (inv : m'.Inv k) (further : Further m m') (loaded : m'.loaded = m.loaded)
      (why : (m.started = false ∧ fault = .memoryNotStarted m.name)
        ∨ (fault = .outOfMemory m.name m.initialSize m.maxSize m.loaded
          ∧ m.loaded.toNat = m.total)
        ∨ fault.isMapping = true) :
      Allocation m h (.error fault, m', k)

/-- **A page that is allocated is new**, and a fault says whether memory is used up. -/
theorem Inv.allocate (hm : m.Inv h) : Allocation m h (m.allocate h) := by
  have hsupply := hm.supply h
  generalize m.allocate h = out at hsupply
  cases hsupply with
  | refused hstopped =>
    exact .failed _ m h (fun _ => rfl) hm (.refl m) rfl (Or.inl ⟨hstopped, rfl⟩)
  | recycled page more _ hrecycled =>
    rw [hm.recycled] at hrecycled
    cases hrecycled
  | usedUp m₁ k _ _ hmap hused =>
    obtain ⟨hext, -⟩ := hm.mapUntilUnused hmap
    have hinv := hext.inv hm
    refine .failed _ m₁ k hext.headers hinv hext.further hext.loaded (Or.inr (Or.inl ⟨rfl, ?_⟩))
    rw [← hext.loaded, hinv.loaded, hinv.handedOut_eq hused.1 hused.2, hext.further.total]
  | unmapped fault m₁ k _ _ hmap hmapping =>
    obtain ⟨hext, -⟩ := hm.mapUntilUnused hmap
    exact .failed fault m₁ k hext.headers (hext.inv hm) hext.further hext.loaded
      (Or.inr (Or.inr hmapping))
  | next m₁ k hstarted _ hmap hunused =>
    obtain ⟨hext, -⟩ := hm.mapUntilUnused hmap
    have hinv := hext.inv hm
    refine .allocated m₁.nextPage m₁.handOutNext (m₁.handOutNext.mark m₁.nextPage k) hstarted
      ((hext.headers _).symm.trans hinv.header?_nextPage) (fun x => ?_)
      (hinv.handOutNext hunused) (hext.further.trans ⟨rfl, rfl⟩) ?_
    · by_cases hx : x = m₁.nextPage
      · obtain ⟨out, hself⟩ := hinv.header?_handOutNext_self hunused
        rw [hx, hself]
        simp
      · rw [hinv.header?_handOutNext_other hx, hext.headers]
        simp [hx]
    · rw [(hinv.handOutNext hunused).loaded, handedOut_handOutNext, hext.handedOut, hm.loaded]

/-! ## Starting -/

/-- Page memory that is not started, though it may have been. -/
structure Stopped (m : PageMemory) : Prop where
  size : m.pageSize.toNat + 24 < 2 ^ 32
  few : m.provider.chunks.length ≤ 16
  started : m.started = false
  mappings : m.provider.mappings = []
  segments : m.segments = []
  nextIndex : m.nextIndex = 0
  recycled : m.recycled = []
  loaded : m.loaded = 0

theorem stopped_fresh (o : RegionOptions) (pageSize : UInt32) (backing : Backing)
    (hsize : pageSize.toNat + 24 < 2 ^ 32) : (fresh o pageSize backing).Stopped :=
  ⟨hsize, Nat.zero_le _, rfl, rfl, rfl, rfl, rfl, rfl⟩

namespace Stopped

variable (hm : m.Stopped)
include hm

theorem layout : m.Layout where
  size := hm.size
  few := hm.few
  mapped := by rw [hm.mappings, hm.segments]; rfl
  mapped_le := by rw [hm.segments]; exact Nat.zero_le _
  sized := by rw [hm.segments]; rfl
  next_le := by rw [hm.nextIndex]; exact Nat.zero_le _

theorem header?_eq_none (page : PageId) : m.header? page = none := by
  rw [header?, hm.segments]
  rfl

theorem handedOut_eq_zero : m.handedOut = 0 := by
  rw [handedOut, hm.segments, hm.nextIndex]
  rfl

theorem hasUnused_eq_false : m.hasUnused = false := by
  rw [hasUnused, hm.segments]
  rfl

theorem inv (h : Host) : m.Inv h where
  toLayout := hm.layout
  recycled := hm.recycled
  loaded := by rw [hm.loaded, hm.handedOut_eq_zero]; rfl
  marked page block address hpage := by
    rw [hm.header?_eq_none] at hpage
    cases hpage

theorem withProvider {p : Provider} (hfew : p.chunks.length ≤ 16) (hmappings : p.mappings = []) :
    ({ m with provider := p } : PageMemory).Stopped :=
  { hm with
    few := hfew
    mappings := hmappings }

end Stopped

theorem Inv.withStarted (hm : m.Inv h) (started : Bool) :
    ({ m with started := started } : PageMemory).Inv h where
  toLayout := { hm with }
  recycled := hm.recycled
  loaded := hm.loaded
  marked := hm.marked

/-- What starting page memory that is stopped can end in. -/
inductive Starting (m : PageMemory) (h : Host) : Except Fault Unit × PageMemory × Host → Prop
  | failed (fault : Fault) (m' : PageMemory) (k : Host) (stopped : m'.Stopped)
      (later : h.Later k) : Starting m h (.error fault, m', k)
  /-- The chunks are announced, and the first of them is mapped. -/
  | started (p : Provider) (m' : PageMemory) (h' k : Host) (text : String)
      (announced : m.provider.announce (Segments.sizes m.initialSize m.maxSize) h = (.ok (), p, h'))
      (ready : ({ m with provider := p } : PageMemory).Stopped)
      (chunks : p.chunks = Segments.sizes m.initialSize m.maxSize) (before : h.Later h')
      (mapped : ({ m with provider := p } : PageMemory).mapNext h' = (.ok (), m', k))
      (later : h.Later k) :
      Starting m h (.ok (), { m' with started := true }, k.note .info text)

theorem Stopped.start (hm : m.Stopped) : Starting m h (m.start h) := by
  have hannounced :=
    m.provider.announce_announcement (Segments.sizes m.initialSize m.maxSize) h
  unfold PageMemory.start
  rw [if_neg (by rw [hm.started]; exact Bool.false_ne_true)]
  rcases hout : m.provider.announce (Segments.sizes m.initialSize m.maxSize) h
    with ⟨fault | _, p, h₁⟩ <;> rw [hout] at hannounced
  · cases hannounced with
    | failed _ _ hlater =>
      obtain ⟨hmappings, hchunks, hlater'⟩ := m.provider.shutdown_cases h₁
      have hstopped := hm.withProvider (by rw [hchunks]; exact hm.few) hmappings
      rw [hm.segments] at hstopped
      exact .failed fault _ _ hstopped (hlater.trans hlater')
  · cases hannounced with
    | announced _ _ _ hchunks hmappings hlater =>
      have hready := hm.withProvider (p := p)
        (by rw [hchunks]; exact Segments.sizes_length _ _) hmappings
      have hmapped := ({ m with provider := p } : PageMemory).mapNext_later h₁
      simp only
      rcases hmap : ({ m with provider := p } : PageMemory).mapNext h₁ with ⟨fault | _, m₁, h₂⟩ <;>
        rw [hmap] at hmapped
      · obtain ⟨-, hfault⟩ := hready.layout.mapNext hready.hasUnused_eq_false hmap
        obtain ⟨rfl, -⟩ := hfault fault rfl
        obtain ⟨hmappings', hchunks', hlater'⟩ := p.shutdown_cases h₂
        have hstopped := hready.withProvider (by rw [hchunks']; exact hready.few) hmappings'
        simp only [hm.segments] at hstopped
        exact .failed fault _ _ hstopped ((hlater.trans hmapped).trans hlater')
      · exact .started p m₁ h₁ h₂ _ hout hready hchunks hlater hmap (hlater.trans hmapped)

/-- What starting fresh page memory comes to: no page is allocated, whether it succeeds or not. -/
theorem start_fresh (o : RegionOptions) (pageSize : UInt32) (backing : Backing)
    (hsize : pageSize.toNat + 24 < 2 ^ 32) {h k : Host} {result : Except Fault Unit}
    {m : PageMemory} (hstart : (fresh o pageSize backing).start h = (result, m, k)) :
    m.Inv k ∧ m.loaded = 0 ∧ (∀ page, m.header? page = none)
      ∧ (result = .ok () → m.started = true ∧ m.pageSize = pageSize
        ∧ m.provider.chunks = Segments.sizes o.initialSize o.maxSize)
      ∧ ∀ fault, result = .error fault → m.started = false := by
  have hstarting := (stopped_fresh o pageSize backing hsize).start (h := h)
  rw [hstart] at hstarting
  cases hstarting with
  | failed fault m k hstopped hlater =>
    exact ⟨hstopped.inv k, hstopped.loaded, hstopped.header?_eq_none, nofun,
      fun _ _ => hstopped.started⟩
  | started p m' h' k text hannounced hready hchunks hbefore hmapped hlater =>
    obtain ⟨hext, -⟩ := hready.layout.mapNext hready.hasUnused_eq_false hmapped
    refine ⟨((hext.inv (hready.inv h')).withStarted true).congr_host fun _ _ => rfl,
      hext.loaded.trans hready.loaded, fun page => ?_,
      fun _ => ⟨rfl, hext.further.pageSize, hext.chunks.trans hchunks⟩, nofun⟩
    exact (hext.headers page).trans (hready.header?_eq_none page)

end PageMemory
end PageRegions
