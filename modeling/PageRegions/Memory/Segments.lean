/-!
# The sizes of memory segments

A region does not map all of its memory at once. It starts with one segment of its initial size,
and what is left of its maximum size is divided into at most fifteen more, which are mapped when
they are needed. None of those is smaller than 256 MiB, except that the last takes what is left.
-/

set_option autoImplicit false

namespace PageRegions.Segments

def most : Nat := 16

/-- The least size of a further segment, 256 MiB. -/
def leastSize : UInt64 := 256 * 1024 * 1024

/-- At most `count` segments of the given size, as far as the memory goes. -/
def further (size : UInt64) : Nat → UInt64 → List UInt64
  | 0, _ => []
  | count + 1, remaining =>
    if remaining = 0 then []
    else
      let next := min size remaining
      next :: further size count (remaining - next)

def sizes (initial max : UInt64) : List UInt64 :=
  let remaining := if initial < max then max - initial else 0
  let size := Max.max (remaining / UInt64.ofNat (most - 1)) leastSize
  initial :: further size (most - 1) remaining

end PageRegions.Segments
