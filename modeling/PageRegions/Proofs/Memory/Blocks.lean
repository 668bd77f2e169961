import Mathlib.Algebra.Order.Group.Nat
import Mathlib.Data.List.GetD
import PageRegions.Memory.PageMemory

/-!
# Bytes of blocks, and the markers of pages

Whether a page is allocated is read from memory, so facts about allocation are facts about bytes: a
header that is written is there, and it leaves alone the headers that do not overlap it. Headers of
one block either stand at the same address, and then their markers are the same, or at least the
length of a header apart.

Nothing is assumed about which blocks are shared by which mappings.
-/

set_option autoImplicit false

namespace PageRegions

namespace Block

theorem get_set (b : Block) (a c : Nat) (byte : UInt8) :
    (b.set a byte).get c = if a = c then byte else b.get c := by
  unfold get set
  rw [Std.HashMap.getD_insert]
  simp only [beq_iff_eq]

/-- What is written stands where it was written, and the rest stays. -/
theorem get_write (b : Block) (a c : Nat) (bytes : List UInt8) :
    (b.write a bytes).get c
      = if a ≤ c ∧ c < a + bytes.length then bytes.getD (c - a) 0 else b.get c := by
  induction bytes generalizing b a with
  | nil =>
    rw [if_neg (by simp only [List.length_nil]; omega)]
    rfl
  | cons byte more ih =>
    rw [write, ih, get_set, List.length_cons]
    by_cases hc : a = c
    · subst hc
      rw [if_neg (by omega), if_pos rfl, if_pos (by omega), Nat.sub_self, List.getD_cons_zero]
    · rw [if_neg hc]
      by_cases hin : a + 1 ≤ c ∧ c < a + 1 + more.length
      · have hstep : c - a = c - (a + 1) + 1 := by omega
        rw [if_pos hin, if_pos (by omega), hstep, List.getD_cons_succ]
      · rw [if_neg hin, if_neg (by omega)]

theorem holds_iff (b : Block) (a : Nat) (bytes : List UInt8) :
    b.holds a bytes = true ↔ ∀ i < bytes.length, b.get (a + i) = bytes.getD i 0 := by
  induction bytes generalizing a with
  | nil => exact ⟨fun _ i hi => absurd hi (Nat.not_lt_zero i), fun _ => rfl⟩
  | cons byte more ih =>
    rw [holds, Bool.and_eq_true, decide_eq_true_iff, ih]
    constructor
    · rintro ⟨hbyte, hmore⟩ i hi
      cases i with
      | zero => exact hbyte
      | succ i =>
        rw [List.getD_cons_succ, ← hmore i (Nat.lt_of_succ_lt_succ hi)]
        congr 1
        omega
    · intro h
      refine ⟨h 0 (Nat.succ_pos _), fun i hi => ?_⟩
      have hnext := h (i + 1) (Nat.succ_lt_succ hi)
      rw [List.getD_cons_succ] at hnext
      rw [← hnext]
      congr 1
      omega

theorem holds_congr {b b' : Block} {a : Nat} {bytes : List UInt8}
    (hsame : ∀ i < bytes.length, b'.get (a + i) = b.get (a + i)) :
    b'.holds a bytes = b.holds a bytes := by
  rw [Bool.eq_iff_iff, holds_iff, holds_iff]
  exact forall₂_congr fun i hi => by rw [hsame i hi]

end Block

namespace Host

theorem block_congr {h k : Host} (hsame : k.blocks = h.blocks) (n : Nat) :
    k.block n = h.block n := by
  rw [block, block, hsame]

theorem block_writeBlock (h : Host) (n m a : Nat) (bytes : List UInt8) :
    (h.writeBlock n a bytes).block m
      = if n = m then (h.block n).write a bytes else h.block m := by
  unfold block writeBlock
  rw [Std.HashMap.getD_eq_getD_getElem?, Std.HashMap.getElem?_alter]
  by_cases hnm : n = m
  · subst hnm
    simp [Std.HashMap.getD_eq_getD_getElem?]
  · simp [hnm, Std.HashMap.getD_eq_getD_getElem?]

end Host

namespace PageMemory

/-- Whether the marker of an allocated page stands in the header at an address. -/
def isMarked (h : Host) (block address : Nat) : Bool :=
  (h.block block).holds (address + markerOffset) marker

theorem length_bytesOf (n value : Nat) : (bytesOf n value).length = n := by
  induction n generalizing value with
  | zero => rfl
  | succ n ih => rw [bytesOf, List.length_cons, ih]

/-- The header of a page that is handed out: its id and the marker. -/
def header (page : PageId) : List UInt8 := bytesOf 8 page.toNat ++ marker

theorem length_header (page : PageId) : (header page).length = 16 := by
  rw [header, List.length_append, length_bytesOf]
  rfl

theorem header_marker (page : PageId) {i : Nat} (hi : i < 8) :
    (header page).getD (8 + i) 0 = marker.getD i 0 := by
  unfold header
  rw [List.getD_append_right _ _ _ _ (by rw [length_bytesOf]; omega), length_bytesOf,
    Nat.add_sub_cancel_left]

/-- **A header that is written is marked, and no mark is lost** at addresses that are the same or
far enough away. -/
theorem isMarked_write {h : Host} {page : PageId} {n m a c : Nat}
    (hc : (n = m ∧ a = c) ∨ isMarked h m c = true ∧ (a = c ∨ a + 24 ≤ c ∨ c + 24 ≤ a)) :
    isMarked (h.writeBlock n a (header page)) m c = true := by
  unfold isMarked
  rw [Block.holds_iff]
  intro i hi
  have hi : i < 8 := hi
  rw [Host.block_writeBlock]
  by_cases hnm : n = m
  · rw [if_pos hnm, Block.get_write, length_header]
    by_cases hac : a = c
    · have hoff : c + markerOffset + i - a = 8 + i := by
        unfold markerOffset
        omega
      rw [if_pos (by unfold markerOffset; omega), hoff, header_marker page hi]
    · rcases hc with ⟨-, he⟩ | ⟨hmarked, hfar⟩
      · exact absurd he hac
      · rw [if_neg (by unfold markerOffset; omega), hnm]
        exact (Block.holds_iff _ _ _).mp hmarked i hi
  · rw [if_neg hnm]
    rcases hc with ⟨he, -⟩ | ⟨hmarked, -⟩
    · exact absurd he hnm
    · exact (Block.holds_iff _ _ _).mp hmarked i hi

/-- What is written elsewhere changes no mark. -/
theorem isMarked_write_other {h : Host} {n m a c : Nat} {bytes : List UInt8}
    (hfar : n ≠ m ∨ a + bytes.length ≤ c + markerOffset ∨ c + markerOffset + 8 ≤ a) :
    isMarked (h.writeBlock n a bytes) m c = isMarked h m c := by
  unfold isMarked
  rw [Host.block_writeBlock]
  by_cases hnm : n = m
  · rw [if_pos hnm, hnm]
    refine Block.holds_congr fun i hi => ?_
    have hi : i < 8 := hi
    rw [Block.get_write, if_neg (by omega)]
  · rw [if_neg hnm]

theorem isMarked_clear (h : Host) (n a : Nat) :
    isMarked (h.writeBlock n (a + markerOffset) noMarker) n a = false := by
  rw [Bool.eq_false_iff]
  intro hmarked
  unfold isMarked at hmarked
  rw [Host.block_writeBlock, if_pos rfl, Block.holds_iff] at hmarked
  have hfirst := hmarked 0 (by decide)
  rw [Block.get_write, if_pos ⟨Nat.le_refl _, Nat.lt_add_of_pos_right (by decide)⟩] at hfirst
  simp [noMarker, marker] at hfirst

end PageMemory
end PageRegions
