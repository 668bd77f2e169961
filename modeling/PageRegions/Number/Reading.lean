import PageRegions.Text.Basic
import PageRegions.Number.Binary64

/-!
# Reading numbers

A reader takes the longest part of a text that is a number and says how many characters it took;
what may follow is for its caller to say. Blanks and one sign may stand in front. The text ends at
its first NUL byte.

Floating-point numbers may be written in decimal or in hexadecimal, or as `inf`, `infinity` or
`nan`, the last with a group of letters in parentheses. A value is out of range if it is too large,
or if it is too small to be held exactly at full precision (`isTiny`).
-/

set_option autoImplicit false

namespace PageRegions

/-- Why a text was refused where a number was expected. `subject` names what is at fault: the
reader, or the text that was read. -/
inductive NumberFault where
  | invalid (subject : String)
  | outOfRange (subject : String)
  deriving DecidableEq, Repr

namespace NumberFault

def message : NumberFault → String
  | .invalid subject => Text.visible subject
  | .outOfRange subject => Text.visible subject

end NumberFault

namespace Reading

def digit? (c : Char) : Option Nat :=
  if c.isDigit then some (c.toNat - '0'.toNat) else none

def hexDigit? (c : Char) : Option Nat :=
  if c.isDigit then some (c.toNat - '0'.toNat)
  else if 'a' ≤ c && c ≤ 'f' then some (c.toNat - 'a'.toNat + 10)
  else if 'A' ≤ c && c ≤ 'F' then some (c.toNat - 'A'.toNat + 10)
  else none

/-- Takes digits as long as there are any: the value so far, how many there were, and the rest. -/
def takeDigits (base : Nat) (value? : Char → Option Nat) :
    Nat → Nat → List Char → Nat × Nat × List Char
  | acc, count, [] => (acc, count, [])
  | acc, count, c :: t =>
    match value? c with
    | some d => takeDigits base value? (acc * base + d) (count + 1) t
    | none => (acc, count, c :: t)

/-- Takes a sign, if there is one; `true` is minus. -/
def takeSign : List Char → Bool × List Char
  | '-' :: t => (true, t)
  | '+' :: t => (false, t)
  | t => (false, t)

/-- An integer as it was written, and how many characters of the text it took. -/
structure Integer where
  negative : Bool
  magnitude : Nat
  taken : Nat
  deriving DecidableEq, Repr

def Integer.value (n : Integer) : Int :=
  if n.negative then -(n.magnitude : Int) else (n.magnitude : Int)

/-- Reads the decimal integer at the beginning of a text. -/
def integer? (s : List Char) : Option Integer :=
  let text := Text.beforeNul s
  let (negative, body) := takeSign (text.dropWhile Text.isBlank)
  match takeDigits 10 digit? 0 0 body with
  | (_, 0, _) => none
  | (magnitude, _, rest) => some ⟨negative, magnitude, text.length - rest.length⟩

/-- Reads an unsigned 64-bit integer. A minus sign negates modulo 2 to the power 64. -/
def unsigned64 (reader : String) (s : List Char) : Except NumberFault (UInt64 × Nat) :=
  match integer? s with
  | none => .error (.invalid reader)
  | some n =>
    if 1 <<< 64 ≤ n.magnitude then .error (.outOfRange reader)
    else
      let value := UInt64.ofNat n.magnitude
      .ok (if n.negative then 0 - value else value, n.taken)

def bounded (reader : String) (least greatest : Int) (s : List Char) :
    Except NumberFault (Int × Nat) :=
  match integer? s with
  | none => .error (.invalid reader)
  | some n =>
    if n.value < least || greatest < n.value then .error (.outOfRange reader)
    else .ok (n.value, n.taken)

/-! ## Floating-point numbers -/

/-- A floating-point number as it was written: `numerator / denominator`, or one of the special
values. -/
inductive Literal where
  | ratio (numerator denominator : Nat)
  | huge
  | vanishing
  | infinite
  | undefined
  deriving DecidableEq, Repr

/-- A power of ten or two with this exponent or more, of either sign, is out of any range once the
digits of the text cannot make up for it. -/
def exponentLimit (digits : Nat) : Nat := 5000 + 4 * digits

/-- The value `mantissa * base ^ exponent`, where `digits` is how many digits the mantissa was
written with. -/
def scaled (base mantissa digits : Nat) (exponent : Int) : Literal :=
  if mantissa = 0 then .ratio 0 1
  else if (exponentLimit digits : Int) < exponent then .huge
  else if exponent < -(exponentLimit digits : Int) then .vanishing
  else .ratio (mantissa * Nat.pow base exponent.toNat) (Nat.pow base (-exponent).toNat)

/-- Takes digits with at most one point among them: the digits as one natural, how many there were,
how many stood behind the point, and the rest. -/
def takePointed (base : Nat) (value? : Char → Option Nat) (s : List Char) :
    Nat × Nat × Nat × List Char :=
  match takeDigits base value? 0 0 s with
  | (whole, wholeCount, '.' :: t) =>
    match takeDigits base value? whole 0 t with
    | (_, 0, _) =>
      if wholeCount = 0 then (0, 0, 0, '.' :: t) else (whole, wholeCount, 0, t)
    | (all, places, rest) => (all, wholeCount + places, places, rest)
  | (whole, wholeCount, rest) => (whole, wholeCount, 0, rest)

/-- Takes an exponent behind one of the two marks, if a digit follows it. -/
def takeExponent (lower upper : Char) (s : List Char) : Int × List Char :=
  match s with
  | [] => (0, [])
  | c :: t =>
    if c = lower || c = upper then
      let (negative, body) := takeSign t
      match takeDigits 10 digit? 0 0 body with
      | (_, 0, _) => (0, c :: t)
      | (magnitude, _, rest) => (if negative then -(magnitude : Int) else magnitude, rest)
    else (0, c :: t)

/-- The text without the word it begins with, in whatever case. -/
def dropWord? (word : String) (s : List Char) : Option (List Char) :=
  if (s.take word.length).map Char.toLower = word.toList then some (s.drop word.length) else none

/-- The characters that may stand in the group behind `nan`. -/
def isGroupChar (c : Char) : Bool := c.isAlphanum || c = '_'

def dropGroup (s : List Char) : List Char :=
  match s with
  | '(' :: t =>
    match t.dropWhile isGroupChar with
    | ')' :: rest => rest
    | _ => '(' :: t
  | t => t

/-- The hexadecimal number at the beginning of a text, behind its mark. -/
def hexadecimal? (s : List Char) : Option (Literal × List Char) :=
  match takePointed 16 hexDigit? s with
  | (_, 0, _, _) => none
  | (mantissa, digits, places, rest) =>
    let (exponent, rest) := takeExponent 'p' 'P' rest
    some (scaled 2 mantissa (4 * digits) (exponent - 4 * places), rest)

def decimal? (s : List Char) : Option (Literal × List Char) :=
  match takePointed 10 digit? s with
  | (_, 0, _, _) => none
  | (mantissa, digits, places, rest) =>
    let (exponent, rest) := takeExponent 'e' 'E' rest
    some (scaled 10 mantissa digits (exponent - places), rest)

/-- The unsigned number at the beginning of a text. A hexadecimal mark without a digit behind it is
the number zero and an `x`. -/
def literal? (s : List Char) : Option (Literal × List Char) :=
  match dropWord? "infinity" s with
  | some rest => some (.infinite, rest)
  | none =>
    match dropWord? "inf" s with
    | some rest => some (.infinite, rest)
    | none =>
      match dropWord? "nan" s with
      | some rest => some (.undefined, dropGroup rest)
      | none =>
        match (dropWord? "0x" s).bind hexadecimal? with
        | some found => some found
        | none => decimal? s

/-- Whether a positive value, rounded as if exponents had no lower end, stays below the least
number of full precision, which is 2 to the power 52 units. The midpoint between that number and
its neighbour below lies a quarter of a unit under it. -/
def isTiny (num den : Nat) : Bool :=
  4 * (num * Binary64.unitsPerOne) < ((1 <<< 54) - 1) * den

/-- The number that a written number denotes, or `none` if it is out of range: too large, or so
small that full precision is lost and with it something of the value. -/
def Literal.round? (negative : Bool) : Literal → Option Binary64
  | .infinite => some (Binary64.infinity negative)
  | .undefined => some (Binary64.ofWord negative (Binary64.infinityWord + (1 <<< 51)))
  | .huge => none
  | .vanishing => none
  | .ratio num den =>
    let x := Binary64.ofRatio negative num den
    if x.isInfinite then none
    else if isTiny num den && x.units * den != num * Binary64.unitsPerOne then none
    else some x

/-- Reads the floating-point number at the beginning of a text. -/
def binary64 (reader : String) (s : List Char) : Except NumberFault (Binary64 × Nat) :=
  let text := Text.beforeNul s
  let (negative, body) := takeSign (text.dropWhile Text.isBlank)
  match literal? body with
  | none => .error (.invalid reader)
  | some (written, rest) =>
    match written.round? negative with
    | none => .error (.outOfRange reader)
    | some x => .ok (x, text.length - rest.length)

end Reading

end PageRegions
