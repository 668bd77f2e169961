import PageRegions.Text.Basic

/-!
# The journal: what is written to a log

The library does not write lines, it notes them: a note has a level and a text. Which notes a log
shows is decided by the level of that log (`Note.line?`), and how they look by the level of the
note: all but informational ones carry the name of their level in front.

Headers pass every filter on their own level, but are then written as information, so a log that
hides information hides them too.
-/

set_option autoImplicit false

namespace PageRegions

/-- How important a note is. -/
inductive LogLevel where
  | debug
  | info
  | warn
  | error
  | fatal
  | header
  deriving DecidableEq, Repr, Inhabited

namespace LogLevel

def rank : LogLevel → Nat
  | .debug => 0
  | .info => 1
  | .warn => 2
  | .error => 3
  | .fatal => 4
  | .header => 5

def ofRank? : Nat → Option LogLevel
  | 0 => some .debug
  | 1 => some .info
  | 2 => some .warn
  | 3 => some .error
  | 4 => some .fatal
  | 5 => some .header
  | _ => none

/-- The name of a level in front of a line, for the levels that carry one. -/
def tag? : LogLevel → Option String
  | .debug => some "DEBUG"
  | .warn => some "WARN"
  | .error => some "ERROR"
  | .fatal => some "FATAL"
  | .info => none
  | .header => none

def optionName : LogLevel → String
  | .debug => "DEBUG_LEVEL"
  | .info => "INFO_LEVEL"
  | .warn => "WARN_LEVEL"
  | .error => "ERROR_LEVEL"
  | .fatal => "FATAL_LEVEL"
  | .header => "HEADER_LEVEL"

def all : List LogLevel := [.debug, .info, .warn, .error, .fatal, .header]

/-- Whether a log of the given level shows notes of this level. -/
def shownAt (level logLevel : LogLevel) : Bool :=
  decide (logLevel.rank ≤ level.rank) &&
    (level != .header || decide (logLevel.rank ≤ LogLevel.info.rank))

/-- Whether a note of this level makes a log write out what it holds back. -/
def isUrgent (level : LogLevel) : Bool :=
  decide (LogLevel.warn.rank ≤ level.rank) && level != .header

end LogLevel

/-- A line to be logged. -/
structure Note where
  level : LogLevel
  text : String
  deriving DecidableEq, Repr

namespace Note

/-- The buffer in which a tag and the pattern of a message are put together holds this many
characters. -/
def patternLimit : Nat := 498

def tagged (n : Note) : String :=
  match n.level.tag? with
  | some tag => "[" ++ tag ++ "] " ++ n.text
  | none => n.text

/-- The line that a log of the given level shows for a note. -/
def line? (logLevel : LogLevel) (n : Note) : Option String :=
  if n.level.shownAt logLevel then some n.tagged else none

/-- The line for a note whose text is itself the pattern of the message: with its tag it is cut at
the limit for patterns, without one it is not. -/
def patternLine? (logLevel : LogLevel) (n : Note) : Option String :=
  if n.level.shownAt logLevel then
    some (if n.level.tag?.isSome then Text.cut patternLimit n.tagged else n.text)
  else none

def lines (logLevel : LogLevel) (notes : List Note) : List String :=
  notes.filterMap (line? logLevel)

end Note

end PageRegions
