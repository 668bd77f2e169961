/-!
# Text: blanks, cuts and pieces

A text of this library is a string of bytes, and a byte is the character of its code (U+0000 to
U+00FF). Option strings, region names, paths and log lines are all such texts. Scanners work on
`List Char`, because that is the shape their induction follows; names and messages are kept as
`String`.

Two rules here are easy to get wrong. A text that consists of blanks only is **not** trimmed to
nothing: its last character stays. And a text handed to the host, to a number reader or to a log
line ends at its first NUL byte (`visible`).
-/

set_option autoImplicit false

namespace PageRegions.Text

/-- The six blanks: space, tab, newline, vertical tab, form feed and carriage return. No byte above
127 is blank. -/
def isBlank (c : Char) : Bool :=
  c = ' ' || ('\t' ≤ c && c ≤ '\r')

def dropBlanksRight (s : List Char) : List Char :=
  (s.reverse.dropWhile isBlank).reverse

/-- Drops blanks at both ends. Of a text that holds nothing but blanks the last one stays, since
the two ends stop where they meet. -/
def trim (s : List Char) : List Char :=
  match s.dropWhile isBlank with
  | [] => s.getLast?.toList
  | c :: t => dropBlanksRight (c :: t)

/-- The part in front of the first NUL byte: what a reader of terminated text sees. -/
def beforeNul (s : List Char) : List Char :=
  s.takeWhile (· ≠ '\x00')

/-- The part of a text that the host, a number reader or a log line sees. -/
def visible (s : String) : String :=
  String.ofList (beforeNul s.toList)

/-- Cuts at every occurrence of the delimiter. A delimiter ends a piece: nothing follows one that
stands at the very end, and the empty text has no pieces. -/
def pieces (delimiter : Char) : List Char → List (List Char)
  | [] => []
  | c :: t =>
    if c = delimiter then [] :: pieces delimiter t
    else
      match pieces delimiter t with
      | [] => [[c]]
      | p :: ps => (c :: p) :: ps

def startsWith (s pattern : String) : Bool :=
  pattern.toList.isPrefixOf s.toList

def endsWith (s pattern : String) : Bool :=
  pattern.toList.isSuffixOf s.toList

/-- Replaces each character that occurs in `unwanted`. -/
def replaceChars (s unwanted : String) (substitute : Char) : String :=
  String.ofList (s.toList.map fun c => if unwanted.toList.contains c then substitute else c)

/-- At most the first `n` characters: what fits a buffer of `n` characters. -/
def cut (n : Nat) (s : String) : String :=
  String.ofList (s.toList.take n)

end PageRegions.Text
