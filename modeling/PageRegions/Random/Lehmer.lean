/-!
# A multiplicative generator

The state is multiplied by 16807 modulo the prime 2 to the power 31 minus 1. The remainder is taken
without a division: since 2 to the power 31 leaves remainder 1, the upper part of a product may be
added to its lower 31 bits, and what is still too large after that is too large by one modulus.
Zero and the modulus itself are fixed points. No seed leads to zero, but one whose lower 31 bits are
all set leads to the modulus.
-/

set_option autoImplicit false

namespace PageRegions

structure Lehmer where
  seed : UInt32
  deriving DecidableEq, Repr

namespace Lehmer

/-- The modulus, 2 to the power 31 minus 1. -/
def modulus : UInt32 := 2147483647

def multiplier : UInt64 := 16807

/-- The generator with the given seed: its lower 31 bits, or 1 if those are all zero. -/
def ofSeed (s : UInt32) : Lehmer :=
  let low := s &&& modulus
  ⟨if low ≠ 0 then low else 1⟩

def step (g : Lehmer) : Lehmer :=
  let product := g.seed.toUInt64 * multiplier
  let folded := ((product >>> 31) + (product &&& modulus.toUInt64)).toUInt32
  ⟨if modulus < folded then folded - modulus else folded⟩

def next (g : Lehmer) : UInt32 × Lehmer := (g.step.seed, g.step)

def steps : Nat → Lehmer → Lehmer
  | 0, g => g
  | n + 1, g => steps n g.step

def take : Nat → Lehmer → List UInt32
  | 0, _ => []
  | n + 1, g => g.step.seed :: take n g.step

def uniform (n : UInt32) (g : Lehmer) : UInt32 × Lehmer := (g.step.seed % n, g.step)

/-- True once in `n` times. -/
def oneIn (n : UInt32) (g : Lehmer) : Bool × Lehmer := (g.step.seed % n = 0, g.step)

end Lehmer

end PageRegions
