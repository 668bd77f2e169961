import Mathlib.Algebra.Order.BigOperators.Group.Multiset
import PageRegions.Proofs.FreeList.Operations

/-!
# The rows that a free list accounts for

A free list counts the rows of a page and their bytes, and forgets what it counted. `LiveRows` is
what it stands for: the sizes of the rows on each page. A row that is placed is added to it, one
that is removed is taken out, and a page that is evicted loses all of its rows.

That a free list `Tallies` with such rows is kept by each of its operations, if a row is removed only
from a page that has one of that size. Then the removal succeeds: without that a page may have enough
bytes for it, but of other rows.

No row has size 0. So there are no more rows on a page than bytes, and the count of rows, a 32-bit
word, never wraps.
-/

set_option autoImplicit false

namespace PageRegions

/-- The sizes of the rows on each page. -/
abbrev LiveRows := PageId → Multiset UInt32

namespace LiveRows

/-- No rows at all. -/
def none : LiveRows := fun _ => 0

def place (rows : LiveRows) (page : PageId) (row : UInt32) : LiveRows :=
  Function.update rows page (row ::ₘ rows page)

def remove (rows : LiveRows) (page : PageId) (row : UInt32) : LiveRows :=
  Function.update rows page ((rows page).erase row)

/-- All rows but those of the given pages. -/
def without (rows : LiveRows) (pages : List PageId) : LiveRows := fun page =>
  if page ∈ pages then 0 else rows page

/-- The bytes that the rows of a page take. -/
def bytes (rows : LiveRows) (page : PageId) : Nat := ((rows page).map UInt32.toNat).sum

variable {rows : LiveRows} {page x : PageId} {row : UInt32}

theorem place_self : rows.place page row page = row ::ₘ rows page := Function.update_self ..

theorem place_other (hx : x ≠ page) : rows.place page row x = rows x := Function.update_of_ne hx ..

theorem remove_self : rows.remove page row page = (rows page).erase row := Function.update_self ..

theorem remove_other (hx : x ≠ page) : rows.remove page row x = rows x :=
  Function.update_of_ne hx ..

theorem without_of_mem {pages : List PageId} (hx : x ∈ pages) : rows.without pages x = 0 :=
  if_pos hx

theorem without_of_notMem {pages : List PageId} (hx : x ∉ pages) :
    rows.without pages x = rows x := if_neg hx

theorem without_nil : rows.without [] = rows := funext fun _ => without_of_notMem List.not_mem_nil

theorem without_append (pages more : List PageId) :
    rows.without (pages ++ more) = (rows.without pages).without more := by
  funext x
  by_cases hmore : x ∈ more
  · rw [without_of_mem hmore, without_of_mem (List.mem_append_right pages hmore)]
  · rw [without_of_notMem hmore]
    unfold without
    simp only [List.mem_append, hmore, or_false]

theorem bytes_place_self : (rows.place page row).bytes page = row.toNat + rows.bytes page := by
  rw [bytes, place_self, Multiset.map_cons, Multiset.sum_cons, bytes]

theorem bytes_remove_self (hrow : row ∈ rows page) :
    (rows.remove page row).bytes page + row.toNat = rows.bytes page := by
  have hsum := congrArg (fun s => (s.map UInt32.toNat).sum) (Multiset.cons_erase hrow)
  simp only [Multiset.map_cons, Multiset.sum_cons] at hsum
  rw [bytes, remove_self, Nat.add_comm]
  exact hsum

/-- Rows with at least a byte each are no more than their bytes. -/
theorem card_le_bytes (hpositive : 0 ∉ rows page) : (rows page).card ≤ rows.bytes page := by
  have hone : ∀ n ∈ (rows page).map UInt32.toNat, 1 ≤ n := by
    intro n hn
    obtain ⟨row, hrow, rfl⟩ := Multiset.mem_map.mp hn
    refine Nat.one_le_iff_ne_zero.mpr fun hzero => hpositive ?_
    rwa [← show row = 0 from UInt32.toNat_inj.mp hzero]
  have hle := Multiset.card_nsmul_le_sum hone
  rw [Multiset.card_map] at hle
  exact (Nat.mul_one _).symm.trans_le hle

theorem le_bytes (hrow : row ∈ rows page) : row.toNat ≤ rows.bytes page :=
  Multiset.single_le_sum (fun _ _ => Nat.zero_le _) _ (Multiset.mem_map_of_mem _ hrow)

/-- A row that is the only one of its page leaves nothing there. -/
theorem remove_last (hrow : row ∈ rows page) (hlast : (rows page).card = 1) :
    rows.remove page row = rows.without [page] := by
  funext x
  by_cases hx : x = page
  · rw [hx, remove_self, without_of_mem (List.mem_singleton.mpr rfl),
      ← Multiset.card_eq_zero, Multiset.card_erase_of_mem hrow, hlast]
    rfl
  · rw [remove_other hx, without_of_notMem (List.mem_singleton.not.mpr hx)]

end LiveRows

namespace FreeList

/-- A free list has an account for each page with rows, and it is right. -/
structure Tallies (f : FreeList) (rows : LiveRows) : Prop where
  page?_none : ∀ page, f.page? page = none ↔ rows page = 0
  count : ∀ page p, f.page? page = some p → p.rows.toNat = (rows page).card
  used : ∀ page p, f.page? page = some p → p.used.toNat = rows.bytes page
  positive : ∀ page, 0 ∉ rows page

variable {f g : FreeList} {rows : LiveRows} {page : PageId} {row : UInt32} {p : DataPage}

theorem tallies_fresh (region : String) (capacity : UInt32) :
    (fresh region capacity).Tallies LiveRows.none where
  page?_none _ := iff_of_true rfl rfl
  count _ _ h := nomatch h
  used _ _ h := nomatch h
  positive _ := Multiset.notMem_zero 0

/-- Only the accounts of pages matter. -/
theorem Tallies.congr (hf : f.Tallies rows) (hpages : g.pages = f.pages) : g.Tallies rows := by
  have hsame := page?_congr hpages
  exact ⟨fun x => by rw [hsame]; exact hf.page?_none x, fun x p hp => hf.count x p (hsame x ▸ hp),
    fun x p hp => hf.used x p (hsame x ▸ hp), hf.positive⟩

theorem Tallies.exists_of_mem (hf : f.Tallies rows) (hrow : row ∈ rows page) :
    ∃ p, f.page? page = some p := by
  refine Option.ne_none_iff_exists'.mp fun hnone => ?_
  rw [(hf.page?_none page).mp hnone] at hrow
  exact Multiset.notMem_zero row hrow

/-- The bytes of all rows. -/
theorem Tallies.usedBytes_eq (hf : f.Tallies rows) (hinv : f.Inv) :
    f.usedBytes = (f.pages.map fun p => rows.bytes p.id).sum := by
  have hsame : ∀ p ∈ f.pages, p.used.toNat = rows.bytes p.id := fun p hp =>
    hf.used p.id p (page?_of_mem hinv.keyed hp)
  exact congrArg List.sum (List.map_congr_left hsame)

/-! ## Accounts after an operation -/

theorem page?_addRow (hp : f.page? page = some p) (x : PageId) :
    (f.addRow page row).page? x
      = if x = page then some ⟨page, p.used + row, p.rows + 1⟩ else f.page? x := by
  unfold addRow
  simp only [hp, Option.getD_some]
  change (((f.unbucket p).putPage _).rebucket _).page? x = _
  rw [page?_rebucket, page?_putPage, page?_unbucket]

theorem page?_openPage (x : PageId) :
    (f.openPage page row).page? x = if x = page then some ⟨page, row, 1⟩ else f.page? x := by
  change ((f.putPage _).rebucket _).page? x = _
  rw [page?_rebucket, page?_putPage]

theorem page?_close (x : PageId) :
    (f.close p).page? x = if x = p.id then none else f.page? x := by
  unfold close
  rw [page?_retire, withUsed_page?, page?_unbucket]

theorem page?_lessen (x : PageId) :
    (f.lessen p row).page? x = if x = p.id then some (lessRow p row) else f.page? x := by
  unfold lessen
  rw [page?_rebucket, page?_putPage, withUsed_page?, page?_unbucket, lessRow_id]

/-! ## Placing a row -/

/-- A page whose account is right after a row was placed, among accounts that are right. -/
theorem Tallies.place (hf : f.Tallies rows) (hrow : row ≠ 0) {more : DataPage}
    (hg : ∀ x, g.page? x = if x = page then some more else f.page? x)
    (hcount : more.rows.toNat = (rows page).card + 1)
    (hused : more.used.toNat = row.toNat + rows.bytes page) :
    g.Tallies (rows.place page row) where
  page?_none x := by
    rw [hg]
    by_cases hx : x = page
    · rw [if_pos hx, hx, LiveRows.place_self]
      simp
    · rw [if_neg hx, LiveRows.place_other hx]
      exact hf.page?_none x
  count x p hp := by
    rw [hg] at hp
    by_cases hx : x = page
    · rw [if_pos hx] at hp
      cases hp
      rw [hx, LiveRows.place_self, Multiset.card_cons, hcount]
    · rw [if_neg hx] at hp
      rw [LiveRows.place_other hx]
      exact hf.count x p hp
  used x p hp := by
    rw [hg] at hp
    by_cases hx : x = page
    · rw [if_pos hx] at hp
      cases hp
      rw [hx, LiveRows.bytes_place_self, hused]
    · rw [if_neg hx] at hp
      rw [LiveRows.bytes, LiveRows.place_other hx]
      exact hf.used x p hp
  positive x := by
    by_cases hx : x = page
    · rw [hx, LiveRows.place_self, Multiset.mem_cons, not_or]
      exact ⟨hrow.symm, hf.positive page⟩
    · rw [LiveRows.place_other hx]
      exact hf.positive x

theorem Tallies.addRow (hf : f.Tallies rows) (hinv : f.Inv) (hrow : row ≠ 0)
    (hp : f.page? page = some p) (hroom : row ≤ f.room p) :
    (f.addRow page row).Tallies (rows.place page row) := by
  have hcount := hf.count page p hp
  have hused := hf.used page p hp
  have hfits := UInt32.le_iff_toNat_le.mp hroom
  rw [room_toNat (hinv.used_le hp)] at hfits
  have hwithin := UInt32.le_iff_toNat_le.mp (hinv.used_le hp)
  have hcapacity := f.capacity.toNat_lt
  have hpos : 0 < row.toNat := by
    refine Nat.pos_of_ne_zero fun hzero => hrow ?_
    exact UInt32.toNat_inj.mp hzero
  -- With the new row there still are no more rows than bytes.
  have hfew := LiveRows.card_le_bytes (hf.positive page)
  refine hf.place hrow (page?_addRow hp) ?_ ?_
  · rw [UInt32.toNat_add, hcount, UInt32.toNat_one, Nat.mod_eq_of_lt (by omega)]
  · rw [UInt32.toNat_add, hused, Nat.add_comm, Nat.mod_eq_of_lt (by omega)]

theorem Tallies.openPage (hf : f.Tallies rows) (hrow : row ≠ 0) (hnone : f.page? page = none) :
    (f.openPage page row).Tallies (rows.place page row) := by
  have hempty := (hf.page?_none page).mp hnone
  refine hf.place hrow page?_openPage ?_ ?_
  · rw [hempty]
    rfl
  · rw [LiveRows.bytes, hempty]
    rfl

/-! ## Dropping the rows of a page -/

theorem Tallies.close (hf : f.Tallies rows) (p : DataPage) :
    (f.close p).Tallies (rows.without [p.id]) := by
  have hother : ∀ x, x ≠ p.id → rows.without [p.id] x = rows x := fun x hx =>
    LiveRows.without_of_notMem (List.mem_singleton.not.mpr hx)
  have hnone : rows.without [p.id] p.id = 0 := LiveRows.without_of_mem (List.mem_singleton.mpr rfl)
  exact {
    page?_none := fun x => by
      rw [page?_close]
      by_cases hx : x = p.id
      · rw [if_pos hx, hx, hnone]
        exact iff_of_true rfl rfl
      · rw [if_neg hx, hother x hx]
        exact hf.page?_none x
    count := fun x q hq => by
      rw [page?_close] at hq
      by_cases hx : x = p.id
      · rw [if_pos hx] at hq
        cases hq
      · rw [if_neg hx] at hq
        rw [hother x hx]
        exact hf.count x q hq
    used := fun x q hq => by
      rw [page?_close] at hq
      by_cases hx : x = p.id
      · rw [if_pos hx] at hq
        cases hq
      · rw [if_neg hx] at hq
        rw [LiveRows.bytes, hother x hx]
        exact hf.used x q hq
    positive := fun x => by
      by_cases hx : x = p.id
      · rw [hx, hnone]
        exact Multiset.notMem_zero 0
      · rw [hother x hx]
        exact hf.positive x }

/-! ## Removing a row -/

theorem removeRow_isOk (hp : f.page? page = some p) (hused : row ≤ p.used) (hrows : p.rows ≠ 0) :
    (f.removeRow page row).1.isOk = true := by
  unfold removeRow
  have hfound : ¬(p.used < row ∨ p.rows = 0) := not_or.mpr ⟨UInt32.not_lt.mpr hused, hrows⟩
  simp only [hp, if_neg hfound]
  split <;> rfl

theorem Tallies.lessen (hf : f.Tallies rows) (hp : f.page? page = some p) (hrow : row ∈ rows page)
    (hused : row ≤ p.used) (hmore : p.rows ≠ 1) :
    (f.lessen p row).Tallies (rows.remove page row) := by
  have hid := page?_id hp
  subst hid
  have hcount := hf.count p.id p hp
  have hbytes := hf.used p.id p hp
  have hleft := LiveRows.bytes_remove_self hrow
  have hpos : 0 < (rows p.id).card := Multiset.card_pos_iff_exists_mem.mpr ⟨row, hrow⟩
  have htwo : (rows p.id).card ≠ 1 := by
    rw [← hcount]
    exact fun hone => hmore (UInt32.toNat_inj.mp hone)
  have hcard := Multiset.card_erase_of_mem hrow
  rw [Nat.pred_eq_sub_one] at hcard
  exact {
    page?_none := fun x => by
      rw [page?_lessen]
      by_cases hx : x = p.id
      · rw [if_pos hx, hx, LiveRows.remove_self, ← Multiset.card_eq_zero, hcard]
        simp only [reduceCtorEq, false_iff]
        omega
      · rw [if_neg hx, LiveRows.remove_other hx]
        exact hf.page?_none x
    count := fun x q hq => by
      rw [page?_lessen] at hq
      by_cases hx : x = p.id
      · rw [if_pos hx] at hq
        cases hq
        have hone : (1 : UInt32) ≤ p.rows := by
          rw [UInt32.le_iff_toNat_le, hcount]
          exact hpos
        rw [hx, LiveRows.remove_self, hcard, ← hcount, lessRow, UInt32.toNat_sub_of_le _ _ hone]
        rfl
      · rw [if_neg hx] at hq
        rw [LiveRows.remove_other hx]
        exact hf.count x q hq
    used := fun x q hq => by
      rw [page?_lessen] at hq
      by_cases hx : x = p.id
      · rw [if_pos hx] at hq
        cases hq
        rw [hx, lessRow, UInt32.toNat_sub_of_le _ _ hused, hbytes]
        omega
      · rw [if_neg hx] at hq
        rw [LiveRows.bytes, LiveRows.remove_other hx]
        exact hf.used x q hq
    positive := fun x => by
      by_cases hx : x = p.id
      · rw [hx, LiveRows.remove_self]
        exact fun hzero => hf.positive p.id (Multiset.mem_of_mem_erase hzero)
      · rw [LiveRows.remove_other hx]
        exact hf.positive x }

/-- **A row that is there can be removed**: its page has bytes for it, and a row to lose. -/
theorem Tallies.removeRow (hf : f.Tallies rows) (hinv : f.Inv) (hrow : row ∈ rows page) :
    (f.removeRow page row).1.isOk = true ∧ (f.removeRow page row).2.Inv
      ∧ (f.removeRow page row).2.Tallies (rows.remove page row) := by
  obtain ⟨p, hp⟩ := hf.exists_of_mem hrow
  have hused : row ≤ p.used := by
    rw [UInt32.le_iff_toNat_le, hf.used page p hp]
    exact LiveRows.le_bytes hrow
  have hcard : 0 < (rows page).card := Multiset.card_pos_iff_exists_mem.mpr ⟨row, hrow⟩
  have hrows : p.rows ≠ 0 := by
    intro hzero
    have hcount := hf.count page p hp
    rw [hzero, UInt32.toNat_zero] at hcount
    omega
  have hok := removeRow_isOk hp hused hrows
  have hrem := f.removeRow_removal page row
  generalize f.removeRow page row = out at hok hrem
  refine ⟨hok, ?_⟩
  cases hrem with
  | refused => cases hok
  | emptied q found fits last =>
    rw [hp] at found
    cases found
    have hone : (rows page).card = 1 := by
      rw [← hf.count page p hp, last]
      rfl
    refine ⟨hinv.close hp, ?_⟩
    rw [LiveRows.remove_last hrow hone, ← page?_id hp]
    exact hf.close p
  | kept q found fits more =>
    rw [hp] at found
    cases found
    exact ⟨hinv.lessen hp fits, hf.lessen hp hrow fits more⟩

end FreeList
end PageRegions
