import PageRegions.Number.Reading

/-!
# Quantities: numbers with a size suffix, and sizes for people

A quantity is a decimal number that may end in `K`, `M`, `G` or `T`, in either case, which shift it
left by ten, twenty, thirty or forty bits. The shift is one of machine words: what it pushes out is
lost. `human` goes the other way and writes a byte count in the largest unit that leaves at least
one of it.
-/

set_option autoImplicit false

namespace PageRegions.Quantity

/-- The bits that a size suffix shifts by. -/
def suffixShift? (c : Char) : Option Nat :=
  match c.toLower with
  | 'k' => some 10
  | 'm' => some 20
  | 'g' => some 30
  | 't' => some 40
  | _ => none

/-- Reads an unsigned 64-bit quantity. A text that begins with a minus sign is refused, and so is
whatever follows the suffix. -/
def unsigned64 (text : String) : Except NumberFault UInt64 :=
  let s := text.toList
  if s.head? = some '-' then .error (.invalid text)
  else
    match Reading.unsigned64 "stoull" s with
    | .error fault => .error fault
    | .ok (n, taken) =>
      match s.drop taken with
      | [] => .ok n
      | [c] =>
        match suffixShift? c with
        | some shift => .ok (n <<< UInt64.ofNat shift)
        | none => .error (.invalid text)
      | _ => .error (.invalid text)

def unsigned32 (text : String) : Except NumberFault UInt32 :=
  match unsigned64 text with
  | .error fault => .error fault
  | .ok n => if n.toNat < 1 <<< 32 then .ok n.toUInt32 else .error (.outOfRange text)

/-- Reads a signed 32-bit quantity. Its suffixes end at `G`, and what follows the suffix is not
looked at. -/
def signed32 (text : String) : Except NumberFault Int32 :=
  let s := text.toList
  match Reading.bounded "stoi" Int32.minValue.toInt Int32.maxValue.toInt s with
  | .error fault => .error fault
  | .ok (n, taken) =>
    match s.drop taken with
    | [] => .ok (Int32.ofInt n)
    | c :: _ =>
      match suffixShift? c with
      | some shift =>
        if shift ≤ 30 then .ok (Int32.ofInt (n * (1 <<< shift : Nat))) else .error (.invalid text)
      | none => .error (.invalid text)

/-- Reads a signed 64-bit integer. What follows it is not looked at. -/
def signed64 (text : String) : Except NumberFault Int64 :=
  match Reading.bounded "stoll" Int64.minValue.toInt Int64.maxValue.toInt text.toList with
  | .error fault => .error fault
  | .ok (n, _) => .ok (Int64.ofInt n)

/-- Reads a floating-point number that takes the whole text. -/
def binary64 (text : String) : Except NumberFault Binary64 :=
  let s := text.toList
  match Reading.binary64 "stod" s with
  | .error fault => .error fault
  | .ok (x, taken) => if taken = s.length then .ok x else .error (.invalid text)

/-- Reads a truth value. `subject` is what the fault names. -/
def boolean (subject text : String) : Except NumberFault Bool :=
  if text = "true" || text = "1" then .ok true
  else if text = "false" || text = "0" then .ok false
  else .error (.invalid subject)

/-! ## Sizes for people -/

/-- The number of bytes in one kilobyte, as a floating-point number. -/
def kilo : Binary64 := Binary64.ofNat 1024

/-- Divides by 1024 as long as the amount is at least that and a larger unit is left: the amount
and its unit. -/
def scaleUp (amount : Binary64) (unit : String) : List String → Binary64 × String
  | [] => (amount, unit)
  | next :: more =>
    if amount.less kilo then (amount, unit) else scaleUp (amount.div kilo) next more

/-- A byte count with two places, in kilobytes or a larger unit. -/
def human (bytes : UInt64) : String :=
  let (amount, unit) := scaleUp ((Binary64.ofNat bytes.toNat).div kilo) "KB" ["MB", "GB", "TB"]
  Text.cut 19 (amount.toFixed 2 ++ " " ++ unit)

def twoPlaces (x : Binary64) : String := Text.cut 31 (x.toFixed 2)

end PageRegions.Quantity
