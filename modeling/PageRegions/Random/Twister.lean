/-!
# A generator with a long period

The generator keeps 312 words of 64 bits. It hands them out in order, each scrambled (`temper`),
and once all are used up makes the next 312 from them: each new word mixes the upper half of one
word and the lower half of its neighbour into a word from the middle of the table.
-/

set_option autoImplicit false

namespace PageRegions

/-- The table of a generator, and how many of its words are used up. -/
structure Twister where
  words : Array UInt64
  used : Nat
  deriving Repr

namespace Twister

def size : Nat := 312

/-- How far the word that is mixed in lies from the word that is replaced. -/
def middle : Nat := 156

def upperMask : UInt64 := 0xFFFFFFFF80000000

def lowerMask : UInt64 := 0x7FFFFFFF

/-- What is mixed in when the joined word is odd. -/
def twist : UInt64 := 0xB5026F5AA96619E9

/-- The words that follow `previous` in a fresh table, from index `i` on. -/
def seedWords : Nat → Nat → UInt64 → Array UInt64 → Array UInt64
  | 0, _, _, table => table
  | n + 1, i, previous, table =>
    let word : UInt64 :=
      (6364136223846793005 : UInt64) * (previous ^^^ (previous >>> 62)) + UInt64.ofNat i
    seedWords n (i + 1) word (table.push word)

/-- The generator with the given seed. Its table counts as used up. -/
def ofSeed (s : UInt64) : Twister := ⟨seedWords (size - 1) 1 s #[s], size⟩

/-- The word that replaces the one at index `i`. -/
def renewed (table : Array UInt64) (i : Nat) : UInt64 :=
  let joined := (table.getD i 0 &&& upperMask) ||| (table.getD ((i + 1) % size) 0 &&& lowerMask)
  let mixed := table.getD ((i + middle) % size) 0 ^^^ (joined >>> 1)
  if joined &&& 1 = 1 then mixed ^^^ twist else mixed

/-- Replaces the words of a table one after the other; later ones see the earlier replacements. -/
def renewFrom : Nat → Nat → Array UInt64 → Array UInt64
  | 0, _, table => table
  | n + 1, i, table => renewFrom n (i + 1) (table.setIfInBounds i (renewed table i))

/-- Scrambles a word before it is handed out. -/
def temper (word : UInt64) : UInt64 :=
  let a := word ^^^ ((word >>> 29) &&& 0x5555555555555555)
  let b := a ^^^ ((a <<< 17) &&& 0x71D67FFFEDA60000)
  let c := b ^^^ ((b <<< 37) &&& 0xFFF7EEE000000000)
  c ^^^ (c >>> 43)

/-- A generator whose next word is not used up. -/
def refilled (g : Twister) : Twister :=
  if g.used < size then g else ⟨renewFrom size 0 g.words, 0⟩

def next (g : Twister) : UInt64 × Twister :=
  let g := g.refilled
  (temper (g.words.getD g.used 0), ⟨g.words, g.used + 1⟩)

def skip : Nat → Twister → Twister
  | 0, g => g
  | n + 1, g => skip n g.next.2

def take : Nat → Twister → List UInt64
  | 0, _ => []
  | n + 1, g => g.next.1 :: take n g.next.2

end Twister

end PageRegions
