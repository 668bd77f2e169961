/-!
# Binary floating-point numbers, exactly

Thresholds, watermarks and rates are 64-bit binary floating-point numbers, and whether a page is
evicted hangs on their last bit. So no operation here is a machine operation: a number is its bits,
and an operation computes the exact result on naturals and rounds it once, to the nearest number
and on a tie to the one with the even significand.

The unit of measure is the smallest positive number, 2 to the power −1074. A finite number is a
sign and a natural count of units (`units`), so comparing two numbers is comparing two integers
(`signedUnits`), and infinity needs no case of its own there: its bits, read like those of a finite
number, denote more units than any finite number has.
-/

set_option autoImplicit false

namespace PageRegions

/-- `num / den` rounded to the nearest natural, on a tie to the even one. -/
def roundEven (num den : Nat) : Nat :=
  let q := num / den
  let r := num % den
  if 2 * r < den then q
  else if den < 2 * r then q + 1
  else q + q % 2

/-- A 64-bit binary floating-point number, as its bits: one for the sign, eleven for the exponent,
fifty-two for the fraction. -/
structure Binary64 where
  bits : UInt64
  deriving DecidableEq, Repr, Inhabited

namespace Binary64

/-- The number of units, of 2 to the power −1074 each, in one. -/
def unitsPerOne : Nat := 1 <<< 1074

/-- The bits of infinity, and the first that no finite number has. -/
def infinityWord : Nat := 2047 <<< 52

def word (x : Binary64) : Nat := x.bits.toNat % (1 <<< 63)

def isNegative (x : Binary64) : Bool := 1 <<< 63 ≤ x.bits.toNat

def isNaN (x : Binary64) : Bool := infinityWord < x.word

def isInfinite (x : Binary64) : Bool := x.word = infinityWord

def isFinite (x : Binary64) : Bool := x.word < infinityWord

/-- The magnitude, counted in units. The exponent 0 marks the small numbers, whose fraction is the
count; every further exponent doubles the step between neighbours. -/
def unitsOfWord (w : Nat) : Nat :=
  let exponent := w >>> 52
  let fraction := w % (1 <<< 52)
  if exponent = 0 then fraction else ((1 <<< 52) + fraction) <<< (exponent - 1)

/-- The magnitude of a number, counted in units. -/
def units (x : Binary64) : Nat := unitsOfWord x.word

/-- The value of a number, counted in units. -/
def signedUnits (x : Binary64) : Int :=
  if x.isNegative then -(x.units : Int) else (x.units : Int)

/-- The number with this sign and these other bits. -/
def ofWord (negative : Bool) (w : Nat) : Binary64 :=
  ⟨UInt64.ofNat ((if negative then 1 <<< 63 else 0) + w)⟩

/-- The other bits of the number nearest to `num / den` units. The step between numbers of that
size is `2 ^ step`; a count that rounds up to the next power of two carries into the exponent, and
whatever lies beyond the largest finite number is infinite. -/
def nearestWord (num den : Nat) : Nat :=
  let step := Nat.log2 (num / den) - 52
  let significand := roundEven num (den <<< step)
  min infinityWord ((step <<< 52) + significand)

/-- The number nearest to `num / den` units, with the given sign. -/
def ofUnitRatio (negative : Bool) (num den : Nat) : Binary64 :=
  ofWord negative (nearestWord num den)

/-- The number nearest to `num / den`, with the given sign. -/
def ofRatio (negative : Bool) (num den : Nat) : Binary64 :=
  ofUnitRatio negative (num * unitsPerOne) den

def ofNat (n : Nat) : Binary64 := ofRatio false n 1

def ofInt (i : Int) : Binary64 := ofRatio (i < 0) i.natAbs 1

def nan : Binary64 := ofWord false (infinityWord + (1 <<< 51))

def infinity (negative : Bool) : Binary64 := ofWord negative infinityWord

def zero : Binary64 := ofWord false 0

/-- The product, rounded once. Zero times infinity is no number. -/
def mul (x y : Binary64) : Binary64 :=
  let negative := x.isNegative != y.isNegative
  if x.isNaN || y.isNaN then nan
  else if x.isInfinite || y.isInfinite then
    if x.units = 0 || y.units = 0 then nan else infinity negative
  else ofUnitRatio negative (x.units * y.units) unitsPerOne

/-- The quotient, rounded once. A division by zero is infinite, and zero by zero is no number. -/
def div (x y : Binary64) : Binary64 :=
  let negative := x.isNegative != y.isNegative
  if x.isNaN || y.isNaN then nan
  else if x.isInfinite then
    if y.isInfinite then nan else infinity negative
  else if y.isInfinite then ofWord negative 0
  else if y.units = 0 then
    if x.units = 0 then nan else infinity negative
  else ofUnitRatio negative (x.units * unitsPerOne) y.units

/-- Whether `x` is less than `y`. What is no number compares with nothing. -/
def less (x y : Binary64) : Bool :=
  !x.isNaN && !y.isNaN && decide (x.signedUnits < y.signedUnits)

/-- The number without its fraction, for a number that is not negative. -/
def floorNat (x : Binary64) : Nat := x.units / unitsPerOne

/-- The text of a number with a fixed count of places, rounded from its exact value, on a tie to
the even last digit. The sign of zero and of what is no number is written too. -/
def toFixed (places : Nat) (x : Binary64) : String :=
  let sign := if x.isNegative then "-" else ""
  if x.isNaN then sign ++ "nan"
  else if x.isInfinite then sign ++ "inf"
  else
    let digits := (toString (roundEven (x.units * Nat.pow 10 places) unitsPerOne)).toList
    let padded := List.replicate (places + 1 - digits.length) '0' ++ digits
    let whole := padded.take (padded.length - places)
    let fraction := padded.drop (padded.length - places)
    sign ++ String.ofList whole ++ (if places = 0 then "" else "." ++ String.ofList fraction)

def hexText (x : Binary64) : String :=
  let digits := Nat.toDigits 16 x.bits.toNat
  String.ofList (List.replicate (16 - digits.length) '0' ++ digits)

def hexValue (c : Char) : Nat := if c.isDigit then c.toNat - 48 else c.toNat - 87

/-- The number whose bits are written as hexadecimal digits. -/
def ofHexText (s : String) : Binary64 :=
  ⟨UInt64.ofNat (s.toList.foldl (fun n c => n * 16 + hexValue c) 0)⟩

end Binary64

end PageRegions
