import PageRegions.Memory.Provider
import PageRegions.Memory.Segments
import PageRegions.Options.Settings

/-!
# Page memory

Page memory cuts mapped segments into pages and hands them out. In front of the bytes of a page
stands a header: the id of the page, a marker while the page is allocated, and a word that is not in
use. Pages that were given back are handed out again before new ones, the latest first; when there
are neither, the next segment is mapped.

Whether a page is allocated is read from its marker, and so it is the bytes of memory that decide.
The size of a page with its header is a 32-bit word. If it wraps, headers lie in the bytes of other
pages, and what is written to one page may change another.
-/

set_option autoImplicit false

namespace PageRegions

/-- A mapped segment: its block of memory, and how many pages fit in it. -/
structure Segment where
  block : Nat
  pages : Nat
  deriving DecidableEq, Repr

structure PageMemory where
  name : String
  initialSize : UInt64
  maxSize : UInt64
  pageSize : UInt32
  provider : Provider
  started : Bool
  segments : List Segment
  /-- The first page of the last segment that was never handed out. -/
  nextIndex : Nat
  /-- The pages that were given back, the latest first. -/
  recycled : List PageId
  loaded : UInt64
  deriving DecidableEq, Repr

namespace PageMemory

/-- The bytes in front of those of a page. -/
def headerSize : UInt32 := 24

/-- Where the marker stands in a header. -/
def markerOffset : Nat := 8

def marker : List UInt8 := [0x4c, 0x4c, 0x41, 0x45, 0x47, 0x41, 0x50, 0x00]

/-- What stands in place of the marker of a page that is not allocated. -/
def noMarker : List UInt8 := List.replicate 8 0

/-- The lower `n` bytes of a number, the lowest first. -/
def bytesOf : Nat → Nat → List UInt8
  | 0, _ => []
  | n + 1, value => UInt8.ofNat (value % 256) :: bytesOf n (value / 256)

def fresh (o : RegionOptions) (pageSize : UInt32) (backing : Backing) : PageMemory where
  name := o.name
  initialSize := o.initialSize
  maxSize := o.maxSize
  pageSize := pageSize
  provider := Provider.fresh backing
  started := false
  segments := []
  nextIndex := 0
  recycled := []
  loaded := 0

def systemPageSize (m : PageMemory) : UInt32 := m.pageSize + headerSize

/-- How many pages a segment of the given size holds. The count is a 32-bit word. -/
def pagesIn (m : PageMemory) (size : UInt64) : Nat :=
  size.toNat / m.systemPageSize.toNat % (1 <<< 32)

def mapNext (m : PageMemory) (h : Host) : Except Fault Unit × PageMemory × Host :=
  match m.provider.next h with
  | (.error fault, provider, h) => (.error fault, { m with provider := provider }, h)
  | (.ok mapping, provider, h) =>
    let segment := ⟨mapping.block?.getD 0, m.pagesIn mapping.length⟩
    (.ok (),
      { m with provider := provider, segments := m.segments ++ [segment], nextIndex := 0 }, h)

/-- Starts page memory: maps the first segment. -/
def start (m : PageMemory) (h : Host) : Except Fault Unit × PageMemory × Host :=
  if m.started then (.ok (), m, h)
  else
    let (result, m, h) : Except Fault Unit × PageMemory × Host :=
      match m.provider.announce (Segments.sizes m.initialSize m.maxSize) h with
      | (.error fault, provider, h) => (.error fault, { m with provider := provider }, h)
      | (.ok (), provider, h) => { m with provider := provider }.mapNext h
    match result with
    | .error fault =>
      let (_, provider, h) := m.provider.shutdown h
      (.error fault, { m with provider := provider, segments := [] }, h)
    | .ok () =>
      (.ok (), { m with started := true },
        h.note .info ("Started page memory of region " ++ Text.visible m.name ++ " [initial="
          ++ Quantity.human m.initialSize ++ ", max=" ++ Quantity.human m.maxSize
          ++ ", system_page_size=" ++ toString m.systemPageSize.toNat ++ ", provider="
          ++ m.provider.backing.name ++ "]"))

/-- Stops page memory: all of its pages are gone. -/
def stop (m : PageMemory) (h : Host) : Except Fault Unit × PageMemory × Host :=
  if !m.started then (.ok (), m, h)
  else
    let (result, provider, h) := m.provider.shutdown h
    (result,
      { m with
        provider := provider
        started := false
        segments := []
        recycled := []
        nextIndex := 0
        loaded := 0 },
      h.note .info ("Stopped page memory of region " ++ Text.visible m.name))

/-- What is left on the host when page memory is dropped. -/
def drop (m : PageMemory) (h : Host) : Host :=
  let (m, h) := if m.started then (m.stop h).2 else (m, h)
  m.provider.drop h

/-! ## Pages -/

/-- Where the header of a page stands, if the page was ever handed out: its block and its address
there. -/
def header? (m : PageMemory) (page : PageId) : Option (Nat × Nat) :=
  match m.segments[page.segment.toNat]? with
  | none => none
  | some segment =>
    if segment.pages ≤ page.index.toNat then none
    else if page.segment.toNat + 1 = m.segments.length ∧ m.nextIndex ≤ page.index.toNat then none
    else some (segment.block, page.index.toNat * m.systemPageSize.toNat)

/-- Whether a page is allocated: where the bytes of the page stand then. -/
def address? (m : PageMemory) (h : Host) (page : PageId) : Option (Nat × Nat) :=
  match m.header? page with
  | none => none
  | some (block, address) =>
    if (h.block block).holds (address + markerOffset) marker then
      some (block, address + headerSize.toNat)
    else none

def isAllocated (m : PageMemory) (h : Host) (page : PageId) : Bool := (m.address? h page).isSome

/-- Whether the last segment has a page that was never handed out. -/
def hasUnused (m : PageMemory) : Bool :=
  match m.segments.getLast? with
  | none => false
  | some segment => m.nextIndex < segment.pages

def unmapped (m : PageMemory) : Nat := m.provider.chunks.length - m.provider.mappings.length

theorem mapNext_ok_unmapped {m m' : PageMemory} {h h' : Host}
    (hm : m.mapNext h = (.ok (), m', h')) : m'.unmapped < m.unmapped := by
  unfold mapNext at hm
  split at hm
  · cases hm
  · next mapping provider h1 hn =>
    cases hm
    obtain ⟨hc, hl, hlt⟩ := Provider.next_ok hn
    simp only [unmapped, hc, hl, List.length_append, List.length_cons, List.length_nil]
    omega

/-- Maps segments until one has a page that was never handed out. -/
def mapUntilUnused (m : PageMemory) (h : Host) : Except Fault Unit × PageMemory × Host :=
  if m.hasUnused then (.ok (), m, h)
  else
    match _hm : m.mapNext h with
    | (.error fault, m, h) => (.error fault, m, h)
    | (.ok (), m, h) => m.mapUntilUnused h
  termination_by m.unmapped
  decreasing_by exact mapNext_ok_unmapped _hm

def mark (m : PageMemory) (page : PageId) (h : Host) : Host :=
  match m.header? page with
  | none => h
  | some (block, address) => h.writeBlock block address (bytesOf 8 page.toNat ++ marker)

def handOut (m : PageMemory) (page : PageId) (h : Host) : Except Fault PageId × PageMemory × Host :=
  (.ok page, { m with loaded := m.loaded + 1 }, m.mark page h)

def allocate (m : PageMemory) (h : Host) : Except Fault PageId × PageMemory × Host :=
  if !m.started then (.error (.memoryNotStarted m.name), m, h)
  else
    match m.recycled with
    | page :: more => { m with recycled := more }.handOut page h
    | [] =>
      match m.mapUntilUnused h with
      | (.error fault, m, h) =>
        if fault.kind = .incomplete then
          (.error (.outOfMemory m.name m.initialSize m.maxSize m.loaded), m, h)
        else (.error fault, m, h)
      | (.ok (), m, h) =>
        let page := ⟨UInt32.ofNat (m.segments.length - 1), UInt32.ofNat m.nextIndex⟩
        { m with nextIndex := m.nextIndex + 1 }.handOut page h

def free (m : PageMemory) (page : PageId) (h : Host) : Except Fault Unit × PageMemory × Host :=
  match m.address? h page with
  | none => (.error (.pageNotAllocated page), m, h)
  | some (block, address) =>
    (.ok (), { m with recycled := page :: m.recycled, loaded := m.loaded - 1 },
      h.writeBlock block (address - headerSize.toNat + markerOffset) noMarker)

def peek (m : PageMemory) (h : Host) (page : PageId) (offset : Nat) : Option UInt8 :=
  if m.pageSize.toNat ≤ offset then none
  else (m.address? h page).map fun (block, address) => (h.block block).get (address + offset)

def poke (m : PageMemory) (h : Host) (page : PageId) (offset : Nat) (byte : UInt8) : Host :=
  match m.address? h page with
  | none => h
  | some (block, address) =>
    if m.pageSize.toNat ≤ offset then h else h.writeBlock block (address + offset) [byte]

end PageMemory

end PageRegions
