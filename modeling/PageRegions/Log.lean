import PageRegions.Host.Host

/-!
# Logs

A log shows the notes that its level lets through. It keeps them as lines in memory, or it writes
them to a file, each behind the time and the number of the thread.

What is written to a file is first held back in a buffer. The buffer is written out when it is full,
with every note that is urgent, with the first note of all, and when the log is closed. Some devices
take nothing: what is written out there is lost, and closing a log fails if it still held something
back. A note that comes within a few seconds of the last one that was written out is held back; no
log lives longer than that here.
-/

set_option autoImplicit false

namespace PageRegions

/-- The output of a log that writes to a file. -/
structure LogFile where
  path : String
  /-- Whether the device behind it refuses everything. -/
  refuses : Bool
  /-- What was written, without times and threads. -/
  entries : List String
  size : Nat
  /-- How many bytes are held back; none before the first write. -/
  held? : Option Nat
  flushed : Bool
  deriving DecidableEq, Repr

inductive LogTarget where
  | memory (lines : List String)
  | file (file : LogFile)
  deriving DecidableEq, Repr

structure Log where
  level : LogLevel
  closed : Bool
  /-- How often the log was asked to write out what it holds back. -/
  flushes : Nat
  target : LogTarget
  deriving DecidableEq, Repr

namespace LogFile

/-- The length of the time and the thread in front of an entry. -/
def headLength : Nat := 44

/-- The longest entry with its head and the newline behind it. -/
def entryLimit : Nat := 65536

def bufferSize : Nat := 4096

/-- An entry, cut to fit, with a newline behind it unless it ends with one. -/
def entryOf (text : String) : String :=
  let kept := Text.cut (entryLimit - 1 - headLength) text
  if kept.toList.getLast? = some '\n' then kept else kept ++ "\n"

/-- How many of `count` bytes are written to a buffer that holds `held?` bytes back, and how many it
holds back then. Bytes that do not fit make it write out. -/
def put (refuses : Bool) (held? : Option Nat) (count : Nat) : Nat × Nat :=
  let held := held?.getD 0
  let room := if held?.isSome then bufferSize - held else 0
  if count ≤ room then (count, held + count)
  else
    let rest := count - room
    if refuses && (held?.isSome || decide (bufferSize ≤ rest)) then (room, 0)
    else (count, rest % bufferSize)

/-- Writes out what is held back. On a device that refuses it, it is lost. -/
def flush (f : LogFile) : LogFile := { f with held? := f.held?.map fun _ => 0, flushed := true }

/-- Adds an entry. The first one is written out. -/
def add (f : LogFile) (text : String) : LogFile :=
  let entry := entryOf text
  let (written, held) := put f.refuses f.held? (headLength + entry.length)
  let f := { f with entries := f.entries ++ [entry], size := f.size + written, held? := some held }
  if f.flushed then f else f.flush

/-- The lines of the file. All lines of an entry but the first have a mark in front, since they have
no head. -/
def lines (f : LogFile) : List String :=
  f.entries.flatMap fun entry =>
    match (Text.pieces '\n' entry.toList).map String.ofList with
    | [] => []
    | first :: more => first :: more.map ("+" ++ ·)

def fileSize (f : LogFile) : Nat :=
  f.entries.foldl (fun size entry => size + (headLength + entry.length)) 0

end LogFile

namespace Log

/-- A log that keeps its lines in memory. -/
def inMemory (level : LogLevel) : Log := ⟨level, false, 0, .memory []⟩

/-- Opens a log that writes to a file, which is emptied. -/
def openFile (level : LogLevel) (path : String) (h : Host) : Except Fault Log × Host :=
  match h.openFile path with
  | (.error e, h) => (.error (.fileTaskFailed .openLog path e), h)
  | (.ok target, h) =>
    let refuses := decide (h.files.entry? target = some (.device true))
    (.ok ⟨level, false, 0, .file ⟨path, refuses, [], 0, none, false⟩⟩, h)

def setLevel (l : Log) (level : LogLevel) : Log := { l with level := level }

def flush (l : Log) : Log :=
  match l.target with
  | .memory _ => { l with flushes := l.flushes + 1 }
  | .file f => { l with flushes := l.flushes + 1, target := .file f.flush }

/-- Adds a line. A file that was closed takes none. -/
def addLine (l : Log) (line : String) : Log :=
  match l.target with
  | .memory lines => { l with target := .memory (lines ++ [line]) }
  | .file f => if l.closed then l else { l with target := .file (f.add line) }

/-- Adds the line of a note of the given level, if it has one. -/
def addOf (l : Log) (level : LogLevel) (line? : Option String) : Log :=
  match line? with
  | none => l
  | some line => if level.isUrgent then (l.addLine line).flush else l.addLine line

def add (l : Log) (n : Note) : Log := l.addOf n.level (n.line? l.level)

/-- Logs a note whose text is the pattern of the message. -/
def addPattern (l : Log) (n : Note) : Log := l.addOf n.level (n.patternLine? l.level)

/-- How many bytes were written to a file. Other logs do not know. -/
def size? (l : Log) : Option Nat :=
  match l.target with
  | .memory _ => none
  | .file f => some f.size

/-- Closes a log. Only the first time can it fail. -/
def close (l : Log) : Except Fault Unit × Log :=
  if l.closed then (.ok (), l)
  else
    match l.target with
    | .memory _ => (.error .closeUnsupported, { l with closed := true })
    | .file f =>
      (if f.refuses ∧ 0 < f.held?.getD 0 then .error (.logCloseFailed f.path) else .ok (),
        { l with closed := true })

def kept (l : Log) : List String :=
  match l.target with
  | .memory lines => lines
  | .file _ => []

end Log

end PageRegions
