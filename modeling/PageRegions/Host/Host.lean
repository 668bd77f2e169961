import Std.Data.HashMap
import PageRegions.Host.FileTree
import PageRegions.Journal

/-!
# The host: clock, files, memory, chance and journal

Everything that a region needs from outside is one value. Operations take it and return it, so what
they did to files, to mapped memory and to the log can be read off the result, and what the host may
decide is part of the argument: statements about all runs are statements about all hosts.

Memory is mapped in blocks of bytes, all zero at first. A block stays where it is when a file is
mapped twice or deleted while it is mapped: two mappings of one file are one block. The host decides
which attempts to map are refused (`refuses`), and the outcome of each drawing of lots (`draws`).
-/

set_option autoImplicit false

namespace PageRegions

/-- The bytes of a block of memory. Those that were never written are zero. -/
structure Block where
  written : Std.HashMap Nat UInt8

namespace Block

def zeros : Block := ⟨∅⟩

def get (b : Block) (address : Nat) : UInt8 := b.written.getD address 0

def set (b : Block) (address : Nat) (byte : UInt8) : Block := ⟨b.written.insert address byte⟩

def write (b : Block) (address : Nat) : List UInt8 → Block
  | [] => b
  | byte :: more => (b.set address byte).write (address + 1) more

def holds (b : Block) (address : Nat) : List UInt8 → Bool
  | [] => true
  | byte :: more => b.get address = byte && b.holds (address + 1) more

end Block

/-- A stretch of mapped memory: the block that it shows, unless mapping failed, and its length. -/
structure Mapping where
  block? : Option Nat
  length : UInt64
  deriving DecidableEq, Repr, Inhabited

namespace Mapping

def empty : Mapping := ⟨none, 0⟩

/-- Hands a mapping on, from one place of a list to another. What is left behind is no mapping, and
what was there before is given up. To itself a mapping is not handed. -/
def handOn (l : List Mapping) (target source : Nat) : List Mapping :=
  if target = source then l else (l.set target (l.getD source empty)).set source empty

end Mapping

/-- What may be done with a file that is to be mapped. -/
inductive Access where
  /-- It is not even open. -/
  | none
  | read
  | readWrite
  deriving DecidableEq, Repr

/-- What surrounds the regions. -/
structure Host where
  /-- The time, in microseconds. -/
  now : UInt64
  files : FileTree
  blocks : Std.HashMap Nat Block
  /-- The number of the next block. -/
  nextBlock : Nat
  /-- Whether the n-th attempt to map memory is refused although its length is in order. -/
  refuses : Nat → Bool
  attempts : Nat
  /-- The n-th lot. -/
  draws : Nat → Nat
  drawn : Nat
  notes : List Note

namespace Host

/-- How the kind of host that regions run on is named. -/
def kindName : String := "Environment"

/-- How the kind of clock that it has is named. -/
def clockKindName : String := "SystemClock"

def clockName : String := "PosixClock"

/-- A host at time 0 with the given files, on which every mapping of a sensible length succeeds. -/
def fresh (files : FileTree) (draws : Nat → Nat) : Host where
  now := 0
  files := files
  blocks := ∅
  nextBlock := files.entries.length
  refuses := fun _ => false
  attempts := 0
  draws := draws
  drawn := 0
  notes := []

def record (h : Host) (notes : List Note) : Host := { h with notes := h.notes ++ notes }

def note (h : Host) (level : LogLevel) (text : String) : Host := h.record [⟨level, text⟩]

def clearNotes (h : Host) : Host := { h with notes := [] }

def advance (h : Host) (micros : UInt64) : Host := { h with now := h.now + micros }

def setClock (h : Host) (micros : UInt64) : Host := { h with now := micros }

def draw (h : Host) (count : Nat) : Nat × Host :=
  (h.draws h.drawn % count, { h with drawn := h.drawn + 1 })

/-! ## Memory -/

def mappingLimit : Nat := 1 <<< 57

def block (h : Host) (number : Nat) : Block := h.blocks.getD number Block.zeros

def writeBlock (h : Host) (number address : Nat) (bytes : List UInt8) : Host :=
  { h with
    blocks := h.blocks.alter number fun b => some ((b.getD Block.zeros).write address bytes) }

/-- Attempts to map memory of the given length: whether it succeeded. No attempt is made for the
length 0. -/
def attempt (h : Host) (length : UInt64) : Bool × Host :=
  if length = 0 then (false, h)
  else
    (decide (length.toNat < mappingLimit) && !h.refuses h.attempts,
      { h with attempts := h.attempts + 1 })

def mapAnonymous (h : Host) (length : UInt64) : Mapping × Host :=
  match h.attempt length with
  | (true, h) => (⟨some h.nextBlock, length⟩, { h with nextBlock := h.nextBlock + 1 })
  | (false, h) => (⟨none, length⟩, h)

def mapBlock (h : Host) (block : Nat) (length : UInt64) : Mapping × Host :=
  match h.attempt length with
  | (true, h) => (⟨some block, length⟩, h)
  | (false, h) => (⟨none, length⟩, h)

/-- Maps a file that nothing was written to. That takes leave to read and to write. -/
def mapNewFile (h : Host) (access : Access) (length : UInt64) : Mapping × Host :=
  if access = .readWrite then h.mapAnonymous length else (⟨none, length⟩, h)

def peek (h : Host) (m : Mapping) (address : Nat) : Option UInt8 :=
  m.block?.map fun number => (h.block number).get address

def poke (h : Host) (m : Mapping) (address : Nat) (byte : UInt8) : Host :=
  match m.block? with
  | none => h
  | some number => h.writeBlock number address [byte]

/-! ## Files -/

def deleteFile (h : Host) (path : String) : Except Fault Unit × Host :=
  let (result, files) := h.files.deleteFile path
  (result, { h with files := files })

def deleteDirectory (h : Host) (path : String) : Except Fault Unit × Host :=
  let (result, files) := h.files.deleteDirectory path
  (result, { h with files := files })

def ensureDirectory (h : Host) (path : String) : Except Fault Unit × Host :=
  let (result, files) := h.files.ensureDirectory path
  (result, { h with files := files })

def ensureDirectories (h : Host) (path : String) : Except Fault Unit × Host :=
  let (result, files) := h.files.ensureDirectories path
  (result, { h with files := files })

/-- Opens a file for writing, and makes it if it is missing: its absolute path. -/
def openFile (h : Host) (path : String) : Except HostError (List String) × Host :=
  match h.files.openFile h.nextBlock path with
  | .ok (target, files) => (.ok target, { h with files := files, nextBlock := h.nextBlock + 1 })
  | .error e => (.error e, h)

/-- Makes an empty file, and the directories it lies in. -/
def placeFile (h : Host) (path : String) : Host :=
  let h :=
    match FileTree.parentText? path.toList with
    | some parent => (h.ensureDirectories (String.ofList parent)).2
    | none => h
  (h.openFile path).2

end Host

end PageRegions
