import Mathlib.Data.List.Nodup
import PageRegions.Proofs.Memory.Backing

/-!
# The ledger of a caller

A caller of page memory that keeps a list of the pages it was handed out, and strikes out those it
gives back, knows which pages are allocated. Page memory keeps no such list: it has a position, a
list of recycled pages, a count, and the markers in the headers. `Balanced` says that all of these
agree with the caller's list. Every page behind the position is on the list or recycled, never both
and never twice; the count is the length of the list; and marked are the pages on the list, which
for the recycled ones means that their markers are gone.

What others do to the host between two calls is `Outside`: anything that leaves the headers of pages
alone and keeps the blocks of files apart.
-/

set_option autoImplicit false

namespace PageRegions

/-- What a caller knows of the pages it was handed out since page memory was started. -/
structure Ledger where
  /-- All of them, the latest first. A page that is handed out again is on it again. -/
  handedOut : List PageId
  /-- Those that were not given back since. -/
  allocated : List PageId

namespace Ledger

def empty : Ledger := ⟨[], []⟩

def add (l : Ledger) (page : PageId) : Ledger := ⟨page :: l.handedOut, page :: l.allocated⟩

def strike (l : Ledger) (page : PageId) : Ledger := { l with allocated := l.allocated.erase page }

end Ledger

namespace PageMemory

variable {m m' : PageMemory} {h k : Host} {l : Ledger}

/-! ## Pages behind the position -/

/-- The pages behind the position of page memory are those of a list, each once. -/
structure Behind (m : PageMemory) (pages : List PageId) : Prop where
  nodup : pages.Nodup
  mem : ∀ page, page ∈ pages ↔ (m.header? page).isSome = true
  length : pages.length = m.handedOut

namespace Behind

variable {pages : List PageId}

theorem perm (hb : m.Behind pages) {pages' : List PageId} (hperm : pages.Perm pages') :
    m.Behind pages' where
  nodup := hperm.nodup_iff.mp hb.nodup
  mem page := hperm.mem_iff.symm.trans (hb.mem page)
  length := hperm.length_eq.symm.trans hb.length

theorem congr (hb : m.Behind pages) (hheaders : ∀ page, m'.header? page = m.header? page)
    (hhanded : m'.handedOut = m.handedOut) : m'.Behind pages where
  nodup := hb.nodup
  mem page := by rw [hheaders, hb.mem]
  length := by rw [hhanded, hb.length]

theorem of_stopped (hm : m.Stopped) : m.Behind [] where
  nodup := .nil
  mem page := by simp [hm.header?_eq_none]
  length := hm.handedOut_eq_zero.symm

theorem eq_nil (hb : m.Behind pages) (hm : m.Stopped) : pages = [] := by
  rw [← List.length_eq_zero_iff, hb.length, hm.handedOut_eq_zero]

theorem handOutNext (hb : m.Behind pages) (hm : m.Layout) (hunused : m.hasUnused = true) :
    m.handOutNext.Behind (m.nextPage :: pages) where
  nodup := by
    refine List.nodup_cons.mpr ⟨fun hmem => ?_, hb.nodup⟩
    rw [hb.mem, hm.header?_nextPage] at hmem
    cases hmem
  mem page := by
    rw [List.mem_cons]
    by_cases heq : page = m.nextPage
    · obtain ⟨out, hself⟩ := hm.header?_handOutNext_self hunused
      rw [heq, hself]
      simp
    · rw [hm.header?_handOutNext_other heq, ← hb.mem]
      exact or_iff_right heq
  length := by rw [List.length_cons, hb.length, handedOut_handOutNext]

end Behind

/-! ## The invariant -/

/-- The ledger of a caller and page memory agree, started or not. -/
structure Balanced (m : PageMemory) (h : Host) (l : Ledger) : Prop where
  layout : m.Layout
  backed : m.Backed h
  sound : h.Sound
  plain : m.started = true → m.provider.Plain
  stopped : m.started = false → m.Stopped
  behind : m.Behind (l.allocated ++ m.recycled)
  handedOut : ∀ page, page ∈ l.handedOut ↔ page ∈ l.allocated ++ m.recycled
  loaded : m.loaded.toNat = l.allocated.length
  marked : ∀ page block address, m.header? page = some (block, address) →
    (isMarked h block address = true ↔ page ∈ l.allocated)

theorem Stopped.balanced (hm : m.Stopped) (hsound : h.Sound) : m.Balanced h .empty where
  layout := hm.layout
  backed := hm.backed h
  sound := hsound
  plain hstarted := by
    rw [hm.started] at hstarted
    cases hstarted
  stopped _ := hm
  behind := by
    rw [hm.recycled]
    exact .of_stopped hm
  handedOut page := by rw [hm.recycled]; rfl
  loaded := by rw [hm.loaded]; rfl
  marked page block address hpage := by
    rw [hm.header?_eq_none] at hpage
    cases hpage

namespace Balanced

/-- Nothing is on the ledger of page memory that is stopped. -/
theorem eq_empty (hb : m.Balanced h l) (hm : m.Stopped) : l = .empty := by
  have hnil := hb.behind.eq_nil hm
  have hnone : l.handedOut = [] := by
    refine List.eq_nil_iff_forall_not_mem.mpr fun page hmem => ?_
    rw [hb.handedOut, hnil] at hmem
    cases hmem
  obtain ⟨handedOut, allocated⟩ := l
  cases hnone
  cases (List.append_eq_nil_iff.mp hnil).1
  rfl

theorem mem_behind (hb : m.Balanced h l) {page : PageId}
    (hmem : page ∈ l.allocated ++ m.recycled) :
    ∃ block address, m.header? page = some (block, address) := by
  rw [hb.behind.mem] at hmem
  obtain ⟨⟨block, address⟩, hpage⟩ := Option.isSome_iff_exists.mp hmem
  exact ⟨block, address, hpage⟩

theorem disjoint (hb : m.Balanced h l) {page : PageId} (halloc : page ∈ l.allocated) :
    page ∉ m.recycled :=
  List.disjoint_of_nodup_append hb.behind.nodup halloc

end Balanced

theorem address?_eq_some {page : PageId} {block address : Nat} :
    m.address? h page = some (block, address)
      ↔ ∃ start, m.header? page = some (block, start) ∧ isMarked h block start = true
        ∧ address = start + 24 := by
  unfold address? isMarked
  cases m.header? page with
  | none => exact ⟨nofun, fun ⟨_, hnone, _⟩ => nomatch hnone⟩
  | some out =>
    obtain ⟨n, a⟩ := out
    simp only
    split
    · next hmarked =>
      constructor
      · intro heq
        cases heq
        exact ⟨a, rfl, hmarked, rfl⟩
      · rintro ⟨start, heq, -, rfl⟩
        cases heq
        rfl
    · next hmarked =>
      refine ⟨nofun, fun ⟨start, heq, hmark, _⟩ => ?_⟩
      cases heq
      exact absurd hmark hmarked

/-- **A page has an address just if it is on the ledger.** -/
theorem Balanced.address?_isSome (hb : m.Balanced h l) (page : PageId) :
    (m.address? h page).isSome = true ↔ page ∈ l.allocated := by
  rw [Option.isSome_iff_exists]
  constructor
  · rintro ⟨⟨block, address⟩, haddress⟩
    obtain ⟨start, hpage, hmarked, -⟩ := address?_eq_some.mp haddress
    exact (hb.marked page block start hpage).mp hmarked
  · intro hmem
    obtain ⟨block, start, hpage⟩ := hb.mem_behind (List.mem_append_left m.recycled hmem)
    exact ⟨_, address?_eq_some.mpr
      ⟨start, hpage, (hb.marked page block start hpage).mpr hmem, rfl⟩⟩

/-! ## Markers -/

section Markers

variable (hb : m.Backed h) (hm : m.Layout) {page x : PageId} {n a n' a' : Nat}
  (hpage : m.header? page = some (n, a)) (hx : m.header? x = some (n', a'))
include hb hm hpage hx

/-- What is written inside the header of a page changes no other mark. -/
theorem Backed.isMarked_other (hne : x ≠ page) {start : Nat} {bytes : List UInt8}
    (hstart : a ≤ start) (hend : start + bytes.length ≤ a + 24) :
    isMarked (k.writeBlock n start bytes) n' a' = isMarked k n' a' := by
  have hsystem := hm.systemPageSize_eq
  refine isMarked_write_other ?_
  unfold markerOffset
  rcases hb.disjoint (Ne.symm hne) hpage hx with hblock | hapart
  · exact Or.inl hblock
  · exact Or.inr (by omega)

theorem Backed.isMarked_mark :
    isMarked (m.mark page k) n' a' = true ↔ x = page ∨ isMarked k n' a' = true := by
  unfold mark
  rw [hpage]
  by_cases hne : x = page
  · subst hne
    rw [hpage] at hx
    cases hx
    exact iff_of_true (isMarked_write (Or.inl ⟨rfl, rfl⟩)) (Or.inl rfl)
  · have hlength := length_header page
    unfold header at hlength
    simp only
    rw [hb.isMarked_other hm hpage hx hne (Nat.le_refl a) (by omega)]
    exact (or_iff_right hne).symm

theorem Backed.isMarked_unmark :
    isMarked (k.writeBlock n (a + markerOffset) noMarker) n' a' = true
      ↔ x ≠ page ∧ isMarked k n' a' = true := by
  by_cases hne : x = page
  · subst hne
    rw [hpage] at hx
    cases hx
    rw [isMarked_clear]
    exact iff_of_false Bool.false_ne_true fun hand => hand.1 rfl
  · have hlength : noMarker.length = 8 := rfl
    rw [hb.isMarked_other hm hpage hx hne (Nat.le_add_right a _) (by unfold markerOffset; omega)]
    exact (and_iff_right hne).symm

end Markers

/-! ## What others do -/

/-- What may happen to the host between two calls: files are kept apart, and no byte of the header
of a page is changed. -/
structure Outside (m : PageMemory) (h k : Host) : Prop where
  later : h.Later k
  headers : ∀ page block address, m.header? page = some (block, address) →
    ∀ i < headerSize.toNat, (k.block block).get (address + i) = (h.block block).get (address + i)

theorem Outside.isMarked_eq (ho : m.Outside h k) {page : PageId} {block address : Nat}
    (hpage : m.header? page = some (block, address)) :
    isMarked k block address = isMarked h block address := by
  refine Block.holds_congr fun i hi => ?_
  have hi : i < 8 := hi
  have hsame := ho.headers page block address hpage (markerOffset + i)
    (by unfold markerOffset; exact (Nat.add_lt_add_left hi 8).trans (by decide))
  rw [Nat.add_assoc]
  exact hsame

theorem Balanced.outside (hb : m.Balanced h l) (ho : m.Outside h k) : m.Balanced k l :=
  { hb with
    backed := hb.backed.later ho.later
    sound := ho.later.sound hb.sound
    marked := fun page block address hpage => by
      rw [ho.isMarked_eq hpage]
      exact hb.marked page block address hpage }

/-- Writing a byte of a page is nothing that page memory notices. -/
theorem Balanced.outside_poke (hb : m.Balanced h l) (page : PageId) (offset : Nat) (byte : UInt8) :
    m.Outside h (m.poke h page offset byte) := by
  unfold poke
  cases haddress : m.address? h page with
  | none => exact ⟨.refl h, fun _ _ _ _ _ _ => rfl⟩
  | some out =>
    obtain ⟨n, address⟩ := out
    obtain ⟨start, hpage, -, rfl⟩ := address?_eq_some.mp haddress
    simp only
    split
    · exact ⟨.refl h, fun _ _ _ _ _ _ => rfl⟩
    · next hinside =>
      refine ⟨h.later_writeBlock _ _ _, fun x n' a' hx i hi => ?_⟩
      have hi : i < 24 := hi
      have hsystem := hb.layout.systemPageSize_eq
      rw [Host.block_writeBlock]
      split
      · next hblock =>
        subst hblock
        rw [Block.get_write, if_neg]
        rw [List.length_singleton]
        by_cases hne : page = x
        · rw [hne, hx] at hpage
          cases hpage
          omega
        · rcases hb.backed.disjoint hne hpage hx with hother | hapart
          · exact absurd rfl hother
          · omega
      · rfl

/-! ## Allocating and giving back -/

/-- Handing out a page balances again if it did so but for that page. -/
theorem Balanced.of_handOut {page : PageId} (hm : m.Layout) (hb : m.Backed h) (hsound : h.Sound)
    (hplain : m.provider.Plain) (hstarted : m.started = true)
    (hbehind : m.Behind (page :: (l.allocated ++ m.recycled)))
    (hhanded : ∀ x, x = page ∨ x ∈ l.handedOut ↔ x ∈ page :: (l.allocated ++ m.recycled))
    (hloaded : m.loaded.toNat = l.allocated.length)
    (hmarked : ∀ x block address, m.header? x = some (block, address) → x ≠ page →
      (isMarked h block address = true ↔ x ∈ l.allocated)) :
    ({ m with loaded := m.loaded + 1 } : PageMemory).Balanced (m.mark page h) (l.add page) := by
  have hlength := hbehind.length
  have hle := hm.handedOut_le
  have hlt := hm.total_lt
  rw [List.length_cons, List.length_append] at hlength
  have hlater : h.Later (m.mark page h) := by
    unfold mark
    split
    · exact .refl h
    · exact h.later_writeBlock _ _ _
  exact {
    layout := { hm with }
    backed := (hb.later hlater).congr rfl rfl rfl
    sound := hlater.sound hsound
    plain := fun _ => hplain
    stopped := fun hstopped => by
      rw [show ({ m with loaded := m.loaded + 1 } : PageMemory).started = m.started from rfl,
        hstarted] at hstopped
      cases hstopped
    behind := hbehind.congr (fun _ => rfl) rfl
    handedOut := fun x => List.mem_cons.trans (hhanded x)
    loaded := by
      change (m.loaded + 1).toNat = l.allocated.length + 1
      rw [UInt64.toNat_add, hloaded, UInt64.toNat_one, Nat.mod_eq_of_lt (by omega)]
    marked := fun x block address hx => by
      have hself : ∃ out, m.header? page = some out :=
        Option.isSome_iff_exists.mp ((hbehind.mem page).mp List.mem_cons_self)
      obtain ⟨⟨n, a⟩, hpage⟩ := hself
      change m.header? x = some (block, address) at hx
      rw [hb.isMarked_mark hm hpage hx]
      change _ ↔ x ∈ page :: l.allocated
      rw [List.mem_cons]
      by_cases hne : x = page
      · exact iff_of_true (Or.inl hne) (Or.inl hne)
      · rw [or_iff_right hne, or_iff_right hne]
        exact hmarked x block address hx hne }

/-- What allocating a page can end in. -/
inductive Handing (m : PageMemory) (l : Ledger) :
    Except Fault PageId × PageMemory × Host → Prop
  | handed (page : PageId) (m' : PageMemory) (k : Host) (new : page ∉ l.allocated)
      (balanced : m'.Balanced k (l.add page)) : Handing m l (.ok page, m', k)
  | failed (fault : Fault) (m' : PageMemory) (k : Host) (balanced : m'.Balanced k l)
      (recycled : m'.recycled = m.recycled) (chunks : m'.provider.chunks = m.provider.chunks)
      (lacking : m.started = true → m.recycled = [])
      (full : (∃ name initial max loaded, fault = .outOfMemory name initial max loaded) →
        m'.UsedUp ∧ m'.recycled = []) :
      Handing m l (.error fault, m', k)

/-- Mapping segments keeps the balance. -/
theorem Balanced.mapUntilUnused (hb : m.Balanced h l) (hstarted : m.started = true)
    {result : Except Fault Unit} (hmap : m.mapUntilUnused h = (result, m', k)) :
    m'.Balanced k l := by
  obtain ⟨hext, -⟩ := hb.layout.mapUntilUnused hmap
  obtain ⟨hbacked, hplain⟩ := hb.backed.mapUntilUnused hb.layout hb.sound (hb.plain hstarted) hmap
  have hlater := m.mapUntilUnused_later h
  rw [hmap] at hlater
  exact {
    layout := hext.layout
    backed := hbacked
    sound := hlater.sound hb.sound
    plain := fun _ => hplain
    stopped := fun hstopped => by
      rw [hext.rest, show _ = m.started from rfl, hstarted] at hstopped
      cases hstopped
    behind := by
      rw [hext.recycled]
      exact hb.behind.congr hext.headers hext.handedOut
    handedOut := by rw [hext.recycled]; exact hb.handedOut
    loaded := by rw [hext.loaded, hb.loaded]
    marked := fun page block address hpage => by
      rw [hext.headers] at hpage
      unfold isMarked
      rw [Host.block_congr hext.blocks]
      exact hb.marked page block address hpage }

/-- **Allocating a page keeps the balance.** -/
theorem Balanced.allocate (hb : m.Balanced h l) : Handing m l (m.allocate h) := by
  have hsupply := hb.layout.supply h
  generalize m.allocate h = out at hsupply
  cases hsupply with
  | refused hstopped =>
    refine .failed _ m h hb rfl rfl (fun hstarted => ?_) nofun
    rw [hstopped] at hstarted
    cases hstarted
  | recycled page more hstarted hrecycled =>
    -- The page that was given back last moves from the one list to the other.
    have hperm : (l.allocated ++ m.recycled).Perm (page :: (l.allocated ++ more)) := by
      rw [hrecycled]
      exact List.perm_middle
    have hmem : page ∈ m.recycled := by
      rw [hrecycled]
      exact List.mem_cons_self
    refine .handed page _ _ (fun halloc => hb.disjoint halloc hmem)
      (.of_handOut (m := { m with recycled := more }) { hb.layout with }
        (hb.backed.congr rfl rfl rfl) hb.sound (hb.plain hstarted) hstarted
        ((hb.behind.perm hperm).congr (fun _ => rfl) rfl) (fun x => ?_) hb.loaded
        fun x block address hx _ => hb.marked x block address hx)
    rw [hb.handedOut, ← hperm.mem_iff]
    refine or_iff_right_of_imp ?_
    rintro rfl
    exact List.mem_append_right _ hmem
  | usedUp m₁ k hstarted hrecycled hmap hused =>
    obtain ⟨hext, -⟩ := hb.layout.mapUntilUnused hmap
    exact .failed _ m₁ k (hb.mapUntilUnused hstarted hmap) hext.recycled hext.chunks
      (fun _ => hrecycled) fun _ => ⟨hused, hext.recycled.trans hrecycled⟩
  | unmapped fault m₁ k hstarted hrecycled hmap hmapping =>
    obtain ⟨hext, -⟩ := hb.layout.mapUntilUnused hmap
    refine .failed fault m₁ k (hb.mapUntilUnused hstarted hmap) hext.recycled hext.chunks
      (fun _ => hrecycled) ?_
    rintro ⟨name, initial, max, loaded, rfl⟩
    cases hmapping
  | next m₁ k hstarted hrecycled hmap hunused =>
    have hb₁ := hb.mapUntilUnused hstarted hmap
    obtain ⟨hext, -⟩ := hb.layout.mapUntilUnused hmap
    have hstarted₁ : m₁.started = true := by rw [hext.rest, hstarted]
    have hnew : m₁.nextPage ∉ l.allocated := fun halloc => by
      obtain ⟨block, address, hpage⟩ := hb₁.mem_behind (List.mem_append_left m₁.recycled halloc)
      rw [hb₁.layout.header?_nextPage] at hpage
      cases hpage
    refine .handed m₁.nextPage _ _ hnew
      (.of_handOut (m := { m₁ with nextIndex := m₁.nextIndex + 1 })
        { hb₁.layout.handOutNext hunused with } (hb₁.backed.congr rfl rfl rfl) hb₁.sound
        (hb₁.plain hstarted₁) hstarted₁
        ((hb₁.behind.handOutNext hb₁.layout hunused).congr (fun _ => rfl) rfl) (fun x => ?_)
        hb₁.loaded fun x block address hx hne => ?_)
    · rw [List.mem_cons, hb₁.handedOut]
    · exact hb₁.marked x block address
        ((hb₁.layout.header?_handOutNext_other hne).symm.trans hx)

/-- Page memory whose chunks are used up and that has no recycled pages has allocated them all. -/
theorem Balanced.full (hb : m.Balanced h l) (hused : m.UsedUp) (hrecycled : m.recycled = []) :
    l.allocated.length = (m.segments.map (·.pages)).sum
      ∧ ∀ page segment, m.segments[page.segment.toNat]? = some segment →
        page.index.toNat < segment.pages → page ∈ l.allocated := by
  have hbehind := hb.behind
  rw [hrecycled, List.append_nil] at hbehind
  obtain ⟨-, hnext⟩ := hused
  constructor
  · rw [hbehind.length, PageMemory.handedOut, hnext, m.sum_dropLast]
  · intro page segment hseg hin
    rw [hbehind.mem, Option.isSome_iff_exists]
    refine ⟨_, header?_eq_some.mpr ⟨segment, hseg, hin, fun heq => ?_, rfl⟩⟩
    rw [hnext, lastPages, List.getLast?_eq_getElem?, ← heq, Nat.add_sub_cancel, hseg]
    exact hin

/-- What giving a page back can end in. -/
inductive Return (m : PageMemory) (h : Host) (l : Ledger) (page : PageId) :
    Except Fault Unit × PageMemory × Host → Prop
  | returned (m' : PageMemory) (k : Host) (allocated : page ∈ l.allocated)
      (balanced : m'.Balanced k (l.strike page)) : Return m h l page (.ok (), m', k)
  | refused (fault : Fault) (free : page ∉ l.allocated) : Return m h l page (.error fault, m, h)

/-- **Giving a page back keeps the balance.** -/
theorem Balanced.free (hb : m.Balanced h l) (page : PageId) :
    Return m h l page (m.free page h) := by
  have hsome := hb.address?_isSome page
  unfold PageMemory.free
  cases haddress : m.address? h page with
  | none =>
    rw [haddress] at hsome
    exact .refused _ fun halloc => nomatch hsome.mpr halloc
  | some out =>
    obtain ⟨n, address⟩ := out
    rw [haddress] at hsome
    have halloc := hsome.mp rfl
    obtain ⟨a, hpage, -, rfl⟩ := address?_eq_some.mp haddress
    have hwhere : a + 24 - headerSize.toNat + markerOffset = a + markerOffset := by
      rw [show headerSize.toNat = 24 from rfl, Nat.add_sub_cancel]
    have hlater : h.Later (h.writeBlock n (a + markerOffset) noMarker) := h.later_writeBlock _ _ _
    have hperm : (l.allocated ++ m.recycled).Perm
        ((l.allocated.erase page) ++ page :: m.recycled) :=
      ((List.perm_cons_erase halloc).append_right _).trans List.perm_middle.symm
    have hpos := List.length_pos_of_mem halloc
    simp only [hwhere]
    exact .returned _ _ halloc {
      layout := { hb.layout with }
      backed := (hb.backed.later hlater).congr rfl rfl rfl
      sound := hlater.sound hb.sound
      plain := hb.plain
      stopped := fun hstopped => by
        rw [(hb.stopped hstopped).header?_eq_none] at hpage
        cases hpage
      behind := (hb.behind.perm hperm).congr (fun _ => rfl) rfl
      handedOut := fun x => (hb.handedOut x).trans hperm.mem_iff
      loaded := by
        change (m.loaded - 1).toNat = (l.allocated.erase page).length
        rw [List.length_erase_of_mem halloc, UInt64.toNat_sub_of_le, hb.loaded, UInt64.toNat_one]
        rw [UInt64.le_iff_toNat_le, hb.loaded]
        exact hpos
      marked := fun x block address hx => by
        change m.header? x = some (block, address) at hx
        rw [hb.backed.isMarked_unmark hb.layout hpage hx, hb.marked x block address hx]
        exact (List.Nodup.mem_erase_iff (List.Nodup.of_append_left hb.behind.nodup)).symm }

end PageMemory
end PageRegions
