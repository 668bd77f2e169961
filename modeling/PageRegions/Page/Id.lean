/-!
# Page ids

A page is named by the memory segment it lies in and its index there. Messages and callers write
the pair as one 64-bit number, the segment in its upper half.
-/

set_option autoImplicit false

namespace PageRegions

/-- The id of a page: its segment and its index in the segment. -/
structure PageId where
  segment : UInt32
  index : UInt32
  deriving DecidableEq, Hashable, Repr, Inhabited

namespace PageId

def toNat (p : PageId) : Nat := (p.segment.toNat <<< 32) + p.index.toNat

def ofUInt64 (n : UInt64) : PageId := ⟨(n >>> 32).toUInt32, n.toUInt32⟩

def text (p : PageId) : String := toString p.toNat

theorem ofUInt64_toNat (p : PageId) : ofUInt64 (UInt64.ofNat p.toNat) = p := by
  have hs := p.segment.toNat_lt
  have hi := p.index.toNat_lt
  have hn : (UInt64.ofNat p.toNat).toNat = p.segment.toNat * 2 ^ 32 + p.index.toNat := by
    simp only [toNat, UInt64.toNat_ofNat', Nat.shiftLeft_eq]
    omega
  have h1 : ((UInt64.ofNat p.toNat) >>> 32).toUInt32 = p.segment := by
    apply UInt32.toNat_inj.1
    simp only [UInt64.toNat_toUInt32, UInt64.toNat_shiftRight, hn, UInt64.reduceToNat,
      Nat.reduceMod, Nat.shiftRight_eq_div_pow]
    omega
  have h2 : (UInt64.ofNat p.toNat).toUInt32 = p.index := by
    apply UInt32.toNat_inj.1
    simp only [UInt64.toNat_toUInt32, hn]
    omega
  simp only [ofUInt64, h1, h2]

theorem toNat_inj {p q : PageId} (h : p.toNat = q.toNat) : p = q := by
  rw [← ofUInt64_toNat p, h, ofUInt64_toNat]

/-- Pages are ordered by their numbers. -/
instance : Ord PageId where
  compare p q := compare p.toNat q.toNat

instance : Std.TransOrd PageId where
  eq_swap := Std.OrientedOrd.eq_swap (α := Nat)
  isLE_trans := Std.TransOrd.isLE_trans (α := Nat)

instance : Std.LawfulEqOrd PageId where
  eq_of_compare h := toNat_inj (Std.LawfulEqOrd.eq_of_compare h)

end PageId

end PageRegions
