import PageRegions.Number.Binary64

/-!
# The machine that regions run on

Two of its properties reach the settings: how much memory it has decides how large a region may
grow unless it says otherwise, and how wide its addresses are decides how large it may be at first.
-/

set_option autoImplicit false

namespace PageRegions

/-- The size of a machine's memory, as its count of pages and the size of one. -/
structure Machine where
  pages : Int64
  pageBytes : Int64
  deriving DecidableEq, Repr

namespace Machine

/-- The size of memory in bytes, modulo 2 to the power 64. A machine that does not know one of its
two numbers has no memory. -/
def memoryBytes (m : Machine) : UInt64 :=
  if m.pages ≤ 0 || m.pageBytes ≤ 0 then 0 else m.pages.toUInt64 * m.pageBytes.toUInt64

/-- The share of memory that a region may grow to unless it says otherwise. -/
def share : Binary64 := Binary64.ofRatio false 8 10

/-- The size a region starts with unless it says otherwise, 256 MiB. -/
def usualInitialSize : UInt64 := 256 * 1024 * 1024

/-- The size a region may grow to unless it says otherwise: four fifths of memory, and no less than
the size that regions usually start with. -/
def usualMaxSize (m : Machine) : UInt64 :=
  max (UInt64.ofNat ((Binary64.ofNat m.memoryBytes.toNat).mul share).floorNat) usualInitialSize

end Machine

end PageRegions
