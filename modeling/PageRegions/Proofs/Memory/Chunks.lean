import PageRegions.Proofs.Memory.PageSizes

/-!
# What becomes of a chunk of memory

The chunks of a region are announced by their sizes, mapped one after the other, and cut into pages.
Of a chunk the pages are handed out upwards, and the next chunk is only mapped when there are none
left. So it takes no list of pages to know which of a chunk were handed out: a count for each chunk
is enough (`handedOutOf`).

How many pages there are in a chunk is counted in a 32-bit word, and a chunk can hold more. What is
said of a chunk here is said with that count (`HandsOut`), as it is.

All of this holds at any time, whether pages were given back or not, and whether page memory is
started, stopped or started again (`Standing`).
-/

set_option autoImplicit false

namespace PageRegions
namespace PageMemory

variable {m m' : PageMemory} {h k : Host}

/-! ## Page memory at any time -/

/-- Page memory at any time of its life, if the size of a page with its header does not wrap. -/
structure Standing (m : PageMemory) : Prop where
  layout : m.Layout
  stopped : m.started = false → m.Stopped
  chunks : m.started = true → m.provider.chunks = Segments.sizes m.initialSize m.maxSize

theorem Stopped.standing (hm : m.Stopped) : m.Standing where
  layout := hm.layout
  stopped _ := hm
  chunks hstarted := by
    rw [hm.started] at hstarted
    cases hstarted

/-- Page memory that is started, with the chunks that it was before. -/
theorem Standing.of_started (hm : m.Standing) (hlayout : m'.Layout) (hstarted : m.started = true)
    (hsame : SameSizes m m') (hstarted' : m'.started = m.started)
    (hchunks : m'.provider.chunks = m.provider.chunks) : m'.Standing where
  layout := hlayout
  stopped hstopped := by
    rw [hstarted', hstarted] at hstopped
    cases hstopped
  chunks _ := by
    rw [hchunks, hsame.initialSize, hsame.maxSize]
    exact hm.chunks hstarted

theorem Standing.start (hm : m.Standing) (h : Host) : (m.start h).2.1.Standing := by
  by_cases hstarted : m.started = true
  · unfold PageMemory.start
    rw [if_pos hstarted]
    exact hm
  · have hsame := m.start_sameSizes h
    have hstarting := (hm.stopped (Bool.eq_false_iff.mpr hstarted)).start (h := h)
    generalize m.start h = out at hsame hstarting
    cases hstarting with
    | failed fault m' k stopped => exact stopped.standing
    | started p m' h' k text announced ready chunks before mapped later =>
      obtain ⟨hext, -⟩ := ready.layout.mapNext ready.hasUnused_eq_false mapped
      have hsizes : m'.provider.chunks = Segments.sizes m'.initialSize m'.maxSize := by
        rw [hext.chunks, hsame.initialSize, hsame.maxSize]
        exact chunks
      exact {
        layout := { hext.layout with }
        stopped := nofun
        chunks := fun _ => hsizes }

theorem Standing.stop (hm : m.Standing) (h : Host) : (m.stop h).2.1.Standing := by
  unfold PageMemory.stop
  by_cases hstarted : m.started = true
  · rw [if_neg (by rw [hstarted]; exact Bool.false_ne_true)]
    obtain ⟨hmappings, hchunks, -⟩ := m.provider.shutdown_cases h
    refine Stopped.standing ⟨hm.layout.size, ?_, rfl, hmappings, rfl, rfl, rfl, rfl⟩
    change (m.provider.shutdown h).2.1.chunks.length ≤ 16
    rw [hchunks]
    exact hm.layout.few
  · rw [Bool.not_eq_true] at hstarted
    rw [if_pos (by rw [hstarted]; rfl)]
    exact hm

theorem Standing.allocate (hm : m.Standing) (h : Host) : (m.allocate h).2.1.Standing := by
  have hsame := m.allocate_sameSizes h
  have hsupply := hm.layout.supply h
  generalize m.allocate h = out at hsame hsupply
  cases hsupply with
  | refused => exact hm
  | recycled page more hstarted =>
    exact hm.of_started { hm.layout with } hstarted hsame rfl rfl
  | usedUp m₁ k hstarted _ hmap =>
    obtain ⟨hext, -⟩ := hm.layout.mapUntilUnused hmap
    exact hm.of_started hext.layout hstarted hsame hext.further.started hext.chunks
  | unmapped fault m₁ k hstarted _ hmap =>
    obtain ⟨hext, -⟩ := hm.layout.mapUntilUnused hmap
    exact hm.of_started hext.layout hstarted hsame hext.further.started hext.chunks
  | next m₁ k hstarted _ hmap hunused =>
    obtain ⟨hext, -⟩ := hm.layout.mapUntilUnused hmap
    exact hm.of_started (hext.layout.handOutNext hunused) hstarted hsame hext.further.started
      hext.chunks

/-- Only page memory that is started has pages to be given back. -/
theorem Standing.free (hm : m.Standing) (page : PageId) (h : Host) :
    (m.free page h).2.1.Standing := by
  unfold PageMemory.free
  cases haddress : m.address? h page with
  | none => exact hm
  | some out =>
    by_cases hstarted : m.started = true
    · exact hm.of_started { hm.layout with } hstarted ⟨rfl, rfl, rfl⟩ rfl rfl
    · unfold address? at haddress
      rw [(hm.stopped (Bool.eq_false_iff.mpr hstarted)).header?_eq_none] at haddress
      cases haddress

/-- **What one step keeps.** -/
theorem Standing.step (hm : m.Standing) (hstep : Step m m') : m'.Standing := by
  cases hstep with
  | same => exact hm
  | start h => exact hm.start h
  | stop h => exact hm.stop h
  | allocate h => exact hm.allocate h
  | free page h => exact hm.free page h

/-! ## The pages of a chunk -/

/-- How many pages of a chunk were handed out, since page memory was started. -/
def handedOutOf (m : PageMemory) (i : Nat) : Nat :=
  if i + 1 = m.segments.length then m.nextIndex
  else (m.segments[i]?.map (·.pages)).getD 0

/-- Whether page memory is done with a chunk: it was cut into pages and has none left. -/
def Past (m : PageMemory) (i : Nat) : Prop :=
  i + 1 < m.segments.length ∨ i + 1 = m.segments.length ∧ m.nextIndex = m.lastPages

/-- A segment is cut from the chunk of the same place. -/
theorem Layout.pages_eq (hm : m.Layout) {i : Nat} {segment : Segment}
    (hsegment : m.segments[i]? = some segment) {size : UInt64}
    (hchunk : m.provider.chunks[i]? = some size) : segment.pages = m.pagesIn size := by
  have hlt := (List.getElem?_eq_some_iff.mp hsegment).1
  have hsized := congrArg (fun pages => pages[i]?) hm.sized
  simp only [List.getElem?_map, hsegment, List.getElem?_take_of_lt hlt, hchunk, Option.map_some,
    Option.some.injEq] at hsized
  exact hsized

theorem lastPages_eq {i : Nat} (hlast : i + 1 = m.segments.length) {segment : Segment}
    (hsegment : m.segments[i]? = some segment) : m.lastPages = segment.pages := by
  unfold lastPages
  rw [List.getLast?_eq_getElem?, ← hlast, Nat.add_sub_cancel, hsegment]
  rfl

/-- The pages of a chunk that were handed out are the first ones. -/
theorem Layout.header?_isSome (hm : m.Layout) (page : PageId) :
    (m.header? page).isSome = true
      ↔ page.index.toNat < m.handedOutOf page.segment.toNat := by
  rw [Option.isSome_iff_exists]
  unfold handedOutOf
  constructor
  · rintro ⟨out, hout⟩
    obtain ⟨segment, hsegment, hin, hnext, -⟩ := header?_eq_some.mp hout
    split
    · next hlast => exact hnext hlast
    · rw [hsegment]
      exact hin
  · intro hlt
    split at hlt
    · next hlast =>
      have hbound : page.segment.toNat < m.segments.length := by omega
      have hsegment := List.getElem?_eq_getElem hbound
      have hle := hm.next_le
      rw [lastPages_eq hlast hsegment] at hle
      exact ⟨_, header?_eq_some.mpr ⟨_, hsegment, by omega, fun _ => hlt, rfl⟩⟩
    · next hother =>
      cases hsegment : m.segments[page.segment.toNat]? with
      | none =>
        rw [hsegment] at hlt
        exact absurd hlt (Nat.not_lt_zero _)
      | some segment =>
        rw [hsegment] at hlt
        exact ⟨_, header?_eq_some.mpr ⟨segment, hsegment, hlt, fun hlast => absurd hlast hother, rfl⟩⟩

theorem Layout.pages_lt (hm : m.Layout) {segment : Segment} (hsegment : segment ∈ m.segments) :
    segment.pages < 2 ^ 32 := by
  have hmem := List.mem_map_of_mem (f := (·.pages)) hsegment
  rw [hm.sized] at hmem
  obtain ⟨size, -, hpages⟩ := List.mem_map.mp hmem
  change segment.pages < 2 ^ 32
  rw [← hpages]
  exact m.pagesIn_lt size

theorem Layout.handedOutOf_lt (hm : m.Layout) (i : Nat) : m.handedOutOf i < 2 ^ 32 := by
  unfold handedOutOf
  split
  · exact hm.next_le.trans_lt hm.lastPages_lt
  · cases hsegment : m.segments[i]? with
    | none => exact Nat.two_pow_pos 32
    | some segment => exact hm.pages_lt (List.mem_of_getElem? hsegment)

/-- No more pages are handed out of a chunk than are counted in it. -/
theorem Layout.handedOutOf_le (hm : m.Layout) {i : Nat} {size : UInt64}
    (hchunk : m.provider.chunks[i]? = some size) : m.handedOutOf i ≤ m.pagesIn size := by
  unfold handedOutOf
  split
  · next hlast =>
    have hbound : i < m.segments.length := by omega
    have hsegment := List.getElem?_eq_getElem hbound
    rw [← hm.pages_eq hsegment hchunk, ← lastPages_eq hlast hsegment]
    exact hm.next_le
  · cases hsegment : m.segments[i]? with
    | none => exact Nat.zero_le _
    | some segment => exact (hm.pages_eq hsegment hchunk).le

/-- And none is left over. -/
theorem Layout.handedOutOf_past (hm : m.Layout) {i : Nat} {size : UInt64}
    (hchunk : m.provider.chunks[i]? = some size) (hpast : m.Past i) :
    m.handedOutOf i = m.pagesIn size := by
  have hbound : i < m.segments.length := by
    rcases hpast with hlt | ⟨heq, -⟩
    · exact Nat.lt_of_succ_lt hlt
    · omega
  have hsegment := List.getElem?_eq_getElem hbound
  unfold handedOutOf
  rcases hpast with hlt | ⟨heq, hused⟩
  · rw [if_neg (Nat.ne_of_lt hlt), hsegment]
    exact hm.pages_eq hsegment hchunk
  · rw [if_pos heq, hused, lastPages_eq heq hsegment]
    exact hm.pages_eq hsegment hchunk

/-- So the pages that were handed out tell their number. -/
theorem Layout.handedOutOf_congr (hm : m.Layout) (hm' : m'.Layout)
    (hheaders : ∀ page, m'.header? page = m.header? page) {i : Nat} (hi : i < 2 ^ 32) :
    m'.handedOutOf i = m.handedOutOf i := by
  have hsame : ∀ index < 2 ^ 32, index < m'.handedOutOf i ↔ index < m.handedOutOf i := by
    intro index hindex
    have hpage := hm.header?_isSome ⟨UInt32.ofNat i, UInt32.ofNat index⟩
    rw [← hheaders, hm'.header?_isSome, UInt32.toNat_ofNat', UInt32.toNat_ofNat',
      Nat.mod_eq_of_lt hi, Nat.mod_eq_of_lt hindex] at hpage
    exact hpage
  have hlt := hm.handedOutOf_lt i
  have hlt' := hm'.handedOutOf_lt i
  refine Nat.le_antisymm (Nat.not_lt.mp fun hmore => ?_) (Nat.not_lt.mp fun hless => ?_)
  · exact Nat.lt_irrefl _ ((hsame _ hlt).mp hmore)
  · exact Nat.lt_irrefl _ ((hsame _ hlt').mpr hless)

theorem handedOutOf_handOutNext (m : PageMemory) (i : Nat) :
    m.handOutNext.handedOutOf i
      = m.handedOutOf i + if i + 1 = m.segments.length then 1 else 0 := by
  unfold handedOutOf
  change (if i + 1 = m.segments.length then m.nextIndex + 1 else _) = _
  split
  · rfl
  · rfl

theorem length_pos_of_hasUnused (hunused : m.hasUnused = true) : 0 < m.segments.length := by
  refine List.length_pos_iff.mpr fun hnone => ?_
  unfold hasUnused at hunused
  rw [hnone] at hunused
  cases hunused

/-- Pages that were not given back before are handed out in their order, and none is left out. -/
theorem Layout.allocate_next (hm : m.Layout) {page : PageId}
    (hok : m.allocate h = (.ok page, m', k)) (hrecycled : m.recycled = []) {i : Nat}
    (hpage : page.segment.toNat = i) :
    page.index.toNat = m.handedOutOf i ∧ m'.handedOutOf i = m.handedOutOf i + 1 := by
  have hsupply := hm.supply h
  rw [hok] at hsupply
  cases hsupply with
  | recycled _ more _ hsome =>
    rw [hrecycled] at hsome
    cases hsome
  | next m₁ k _ _ hmap hunused =>
    obtain ⟨hext, -⟩ := hm.mapUntilUnused hmap
    obtain ⟨hsegment, hindex⟩ := hext.layout.nextPage_toNat
    have hlast : i + 1 = m₁.segments.length := by
      have hpos := length_pos_of_hasUnused hunused
      omega
    have hbefore := hm.handedOutOf_congr hext.layout hext.headers
      (i := i) (by rw [← hpage]; exact UInt32.toNat_lt _)
    rw [handedOutOf_handOutNext, if_pos hlast, ← hbefore]
    refine ⟨?_, rfl⟩
    unfold handedOutOf
    rw [if_pos hlast]
    exact hindex

/-- Nothing else hands out a page of a chunk. -/
theorem Layout.allocate_other (hm : m.Layout) {result : Except Fault PageId}
    (hasked : m.allocate h = (result, m', k)) {i : Nat} (hi : i < 2 ^ 32)
    (hother : ∀ page, result = .ok page → m.recycled = [] → page.segment.toNat ≠ i) :
    m'.handedOutOf i = m.handedOutOf i := by
  have hsupply := hm.supply h
  rw [hasked] at hsupply
  cases hsupply with
  | refused => rfl
  | recycled page more _ hsome => rfl
  | usedUp _ _ _ _ hmap _ | unmapped _ _ _ _ _ hmap _ =>
    obtain ⟨hext, -⟩ := hm.mapUntilUnused hmap
    exact hm.handedOutOf_congr hext.layout hext.headers hi
  | next m₁ k _ hnone hmap hunused =>
    obtain ⟨hext, -⟩ := hm.mapUntilUnused hmap
    have hne := hother _ rfl hnone
    rw [hext.layout.nextPage_toNat.1] at hne
    rw [handedOutOf_handOutNext, if_neg (by omega), Nat.add_zero]
    exact hm.handedOutOf_congr hext.layout hext.headers hi

/-- Memory is reported to be used up only when it is done with all chunks. -/
theorem Layout.allocate_past (hm : m.Layout) {name : String} {initial max loaded : UInt64}
    (herror : m.allocate h = (.error (.outOfMemory name initial max loaded), m', k)) {i : Nat}
    (hi : i < m.provider.chunks.length) : m'.Past i := by
  have hsupply := hm.supply h
  rw [herror] at hsupply
  cases hsupply with
  | unmapped _ _ _ _ _ _ hmapping => cases hmapping
  | usedUp m₁ k _ _ hmap hused =>
    obtain ⟨hext, -⟩ := hm.mapUntilUnused hmap
    obtain ⟨hall, hnext⟩ := hused
    rw [hext.chunks] at hall
    rcases Nat.lt_or_eq_of_le (show i + 1 ≤ m'.segments.length by omega) with hlt | heq
    · exact Or.inl hlt
    · exact Or.inr ⟨heq, hnext⟩

theorem Stopped.handedOutOf (hm : m.Stopped) (i : Nat) : m.handedOutOf i = 0 := by
  unfold PageMemory.handedOutOf
  rw [hm.segments]
  rfl

/-- Starting page memory hands out no page. -/
theorem Stopped.start_handedOutOf (hm : m.Stopped) (h : Host) {i : Nat} (hi : i < 2 ^ 32) :
    (m.start h).2.1.handedOutOf i = 0 := by
  have hstarting := hm.start (h := h)
  generalize m.start h = out at hstarting
  cases hstarting with
  | failed _ _ _ stopped => exact stopped.handedOutOf i
  | started p m' h' k _ _ ready _ _ mapped _ =>
    obtain ⟨hext, -⟩ := ready.layout.mapNext ready.hasUnused_eq_false mapped
    exact (ready.layout.handedOutOf_congr hext.layout hext.headers hi).trans (ready.handedOutOf i)

/-! ## Chunks as they are handed out -/

/-- How page memory hands out the chunk at a place, if there are `n` pages in it. -/
structure HandsOut (m : PageMemory) (h : Host) (i n : Nat) : Prop where
  /-- There are ids for all of them. -/
  ids : i < 2 ^ 32 ∧ n ≤ 2 ^ 32
  /-- Those that were handed out are the first ones. -/
  first : ∀ page : PageId, page.segment.toNat = i →
    ((m.header? page).isSome = true ↔ page.index.toNat < m.handedOutOf i)
  most : m.handedOutOf i ≤ n
  none : m.started = false → m.handedOutOf i = 0 ∧ (m.start h).2.1.handedOutOf i = 0
  /-- There are no others when page memory turns to the next chunk. -/
  all : m.Past i → m.handedOutOf i = n
  /-- A page that was not given back before is the next one. -/
  next : ∀ page m' k, m.allocate h = (.ok page, m', k) → m.recycled = [] →
    page.segment.toNat = i →
      page.index.toNat = m.handedOutOf i ∧ m'.handedOutOf i = m.handedOutOf i + 1
  /-- No page is passed over. -/
  other : ∀ result m' k, m.allocate h = (result, m', k) →
    (∀ page, result = .ok page → m.recycled = [] → page.segment.toNat ≠ i) →
      m'.handedOutOf i = m.handedOutOf i
  /-- Nor is there another page when memory is reported to be used up. -/
  full : ∀ name initial max loaded m' k,
    m.allocate h = (.error (.outOfMemory name initial max loaded), m', k) → m'.handedOutOf i = n

theorem Stopped.handsOut (hm : m.Stopped) (h : Host) {i n : Nat} (hi : i < 2 ^ 32)
    (hn : n ≤ 2 ^ 32) : m.HandsOut h i n := by
  have hnone := hm.handedOutOf i
  have hrefused : m.allocate h = (.error (.memoryNotStarted m.name), m, h) := by
    unfold PageMemory.allocate
    rw [hm.started]
    rfl
  refine {
    ids := ⟨hi, hn⟩
    first := fun page _ => ?_
    most := by rw [hnone]; exact Nat.zero_le n
    none := fun _ => ⟨hnone, hm.start_handedOutOf h hi⟩
    all := fun hpast => ?_
    next := fun page m' k hok => ?_
    other := fun result m' k hasked _ => ?_
    full := fun name initial max loaded m' k herror => ?_ }
  · rw [hm.header?_eq_none, hnone]
    exact ⟨nofun, fun hlt => absurd hlt (Nat.not_lt_zero _)⟩
  · unfold Past at hpast
    rw [hm.segments, List.length_nil] at hpast
    omega
  · rw [hrefused] at hok
    cases hok
  · rw [hrefused] at hasked
    cases hasked
    rfl
  · rw [hrefused] at herror
    cases herror

/-- **All pages that are counted in a chunk are handed out**, whatever became of them before. -/
theorem Standing.handsOut (hm : m.Standing) (h : Host) {i : Nat} {size : UInt64}
    (hchunk : (Segments.sizes m.initialSize m.maxSize)[i]? = some size) :
    m.HandsOut h i (size.toNat / (m.pageSize.toNat + 24) % 2 ^ 32) := by
  have hpages : ∀ m' : PageMemory, SameSizes m m' →
      m'.pagesIn size = size.toNat / (m.pageSize.toNat + 24) % 2 ^ 32 := by
    intro m' hsame
    unfold pagesIn
    rw [hsame.systemPageSize, hm.layout.systemPageSize_eq, Nat.one_shiftLeft]
  have hbound := (List.getElem?_eq_some_iff.mp hchunk).1
  have hfew := Segments.sizes_length m.initialSize m.maxSize
  have hid : i < 2 ^ 32 := by
    unfold Segments.most at hfew
    omega
  have hcount : size.toNat / (m.pageSize.toNat + 24) % 2 ^ 32 ≤ 2 ^ 32 :=
    (Nat.mod_lt _ (Nat.two_pow_pos 32)).le
  by_cases hstarted : m.started = true
  · have hannounced := hm.chunks hstarted
    rw [← hannounced] at hchunk
    refine {
      ids := ⟨hid, hcount⟩
      first := fun page hpage => by
        rw [← hpage]
        exact hm.layout.header?_isSome page
      most := by
        rw [← hpages m (.refl m)]
        exact hm.layout.handedOutOf_le hchunk
      none := fun hstopped => by
        rw [hstarted] at hstopped
        cases hstopped
      all := fun hpast => by
        rw [← hpages m (.refl m)]
        exact hm.layout.handedOutOf_past hchunk hpast
      next := fun page m' k hok hrecycled hpage =>
        hm.layout.allocate_next hok hrecycled hpage
      other := fun result m' k hasked hother => hm.layout.allocate_other hasked hid hother
      full := fun name initial max loaded m' k herror => ?_ }
    have hpast := hm.layout.allocate_past herror (List.getElem?_eq_some_iff.mp hchunk).1
    have hsame := m.allocate_sameSizes h
    have hstanding := hm.allocate h
    have hsupply := hm.layout.supply h
    rw [herror] at hsame hstanding hsupply
    cases hsupply with
    | unmapped _ _ _ _ _ _ hmapping => cases hmapping
    | usedUp _ _ _ _ hmap _ =>
      obtain ⟨hext, -⟩ := hm.layout.mapUntilUnused hmap
      rw [← hext.chunks] at hchunk
      rw [← hpages m' hsame]
      exact hstanding.layout.handedOutOf_past hchunk hpast
  · exact (hm.stopped (Bool.eq_false_iff.mpr hstarted)).handsOut h hid hcount

end PageMemory
end PageRegions
