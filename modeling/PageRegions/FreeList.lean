import PageRegions.Fault
import PageRegions.Journal

/-!
# Free lists: where the rows of a region go

A free list knows of each data page how many rows it holds and how many bytes they take; the rows
themselves are stored elsewhere. Data pages with room are sorted into buckets by how much room they
have, so that a page for a row is found without looking at every page: all pages of a bucket above
the row's own have room for it, and only in the row's own bucket each page has to be asked.

Pages that lost their last row form a pool, from which the latest is taken first. A row goes to a
data page with room; if there is none to a page of the pool; and only if the pool is empty as well
a page is allocated. Who allocates is a parameter (`insertRow`).

Accounts are kept for each page and for the list as a whole (`used`), and the same facts are kept
twice: which bucket a page is in follows from its account, and which pages are marked as pooled
follows from the pool. That holds as long as no page is handed to the list that the list has
already. A page that is handed to it again while it still has rows starts its own account anew,
while the list counts the old rows on and the page stays in its old bucket, too; from there it is
given rows that it has no room for. Sizes are 32-bit words, so the room on an overfull page is a
huge one. A page that is pooled twice loses its mark when it is taken for the first time, and may be
pooled again then.
-/

set_option autoImplicit false

namespace PageRegions

/-- A page that holds rows: how many, and the bytes they take. -/
structure DataPage where
  id : PageId
  used : UInt32
  rows : UInt32
  deriving DecidableEq, Repr

structure FreeList where
  region : String
  /-- The bytes of rows that one page can hold. -/
  capacity : UInt32
  /-- The pages that hold rows. -/
  pages : List DataPage
  /-- The data pages with room, by how much they have. -/
  buckets : List (List PageId)
  /-- The pages without rows, the latest first. -/
  pool : List PageId
  /-- The pages that are marked as pooled. -/
  marked : List PageId
  /-- The bytes of all rows. -/
  used : UInt64
  deriving DecidableEq, Repr

namespace FreeList

def bucketCount : Nat := 8

def fresh (region : String) (capacity : UInt32) : FreeList where
  region := region
  capacity := capacity
  pages := []
  buckets := List.replicate bucketCount []
  pool := []
  marked := []
  used := 0

/-! ## Pages and buckets -/

/-- The account of a page, if it holds rows. -/
def page? (f : FreeList) (id : PageId) : Option DataPage := f.pages.find? fun p => p.id = id

def holds (f : FreeList) (id : PageId) : Bool := (f.page? id).isSome

def room (f : FreeList) (p : DataPage) : UInt32 := f.capacity - p.used

/-- The share of a page that is free, in as many parts as there are buckets. -/
def share (f : FreeList) (room : UInt32) : Nat :=
  room.toNat * bucketCount / (f.capacity.toNat + 1)

/-- The bucket of pages with the given room. Pages without room are in none. The number of a bucket
is a signed 32-bit word, and so pages with so much room that it is negative are in none either. -/
def bucketFor (f : FreeList) (room : UInt32) : Option Nat :=
  if room = 0 then none
  else
    let number := f.share room % (1 <<< 32)
    if number < 1 <<< 31 then some number else none

def bucket (f : FreeList) (b : Nat) : List PageId := f.buckets.getD b []

def unbucket (f : FreeList) (p : DataPage) : FreeList :=
  match f.bucketFor (f.room p) with
  | none => f
  | some b => { f with buckets := f.buckets.modify b fun ids => ids.filter fun id => id ≠ p.id }

def rebucket (f : FreeList) (p : DataPage) : FreeList :=
  match f.bucketFor (f.room p) with
  | none => f
  | some b =>
    { f with buckets := f.buckets.modify b fun ids => if p.id ∈ ids then ids else p.id :: ids }

def putPage (f : FreeList) (p : DataPage) : FreeList :=
  { f with pages := p :: f.pages.filter fun q => q.id ≠ p.id }

def pushPool (f : FreeList) (id : PageId) : FreeList :=
  { f with
    pool := id :: f.pool
    marked := if id ∈ f.marked then f.marked else id :: f.marked }

def popPool (f : FreeList) : Option (PageId × FreeList) :=
  match f.pool with
  | [] => none
  | id :: more => some (id, { f with pool := more, marked := f.marked.filter (· ≠ id) })

/-- Closes the account of a page, which goes to the pool. -/
def retire (f : FreeList) (id : PageId) : FreeList :=
  { f with pages := f.pages.filter fun q => q.id ≠ id }.pushPool id

/-! ## Rows -/

def fits (f : FreeList) (row : UInt32) (id : PageId) : Bool :=
  match f.page? id with
  | none => false
  | some p => decide (row ≤ f.room p)

/-- A data page with room for a row: one that is asked from the row's own bucket, or the first of
the lowest bucket above it that has any. -/
def findRoom? (f : FreeList) (row : UInt32) : Option PageId :=
  match f.bucketFor row with
  | none => none
  | some b =>
    match (f.bucket b).find? (f.fits row) with
    | some id => some id
    | none => ((f.buckets.drop (b + 1)).find? fun ids => !ids.isEmpty).bind List.head?

def addRow (f : FreeList) (id : PageId) (row : UInt32) : FreeList :=
  let p := (f.page? id).getD ⟨id, 0, 0⟩
  let more : DataPage := ⟨id, p.used + row, p.rows + 1⟩
  let f := ((f.unbucket p).putPage more).rebucket more
  { f with used := f.used + row.toUInt64 }

/-- Starts the account of a page with a row. -/
def openPage (f : FreeList) (id : PageId) (row : UInt32) : FreeList :=
  let first : DataPage := ⟨id, row, 1⟩
  let f := (f.putPage first).rebucket first
  { f with used := f.used + row.toUInt64 }

/-- Places a row on a page. A page is allocated if none has room and the pool is empty. -/
def insertRow {σ : Type} (allocate : σ → Except Fault PageId × σ) (f : FreeList)
    (row : UInt32) (s : σ) : Except Fault PageId × FreeList × σ :=
  if row = 0 then (.error .emptyRow, f, s)
  else if f.capacity < row then (.error (.rowTooLarge row f.capacity), f, s)
  else
    match f.findRoom? row with
    | some id => (.ok id, f.addRow id row, s)
    | none =>
      match f.popPool with
      | some (id, f) => (.ok id, f.openPage id row, s)
      | none =>
        match allocate s with
        | (.error fault, s) => (.error fault, f, s)
        | (.ok id, s) => (.ok id, f.openPage id row, s)

/-- Removes a row from a page: whether it was the last. Bytes that are left on a page without rows
belong to none. -/
def removeRow (f : FreeList) (id : PageId) (row : UInt32) : Except Fault Bool × FreeList :=
  match f.page? id with
  | none => (.error (.pageHoldsNoRows id), f)
  | some p =>
    if p.used < row ∨ p.rows = 0 then (.error (.rowNotOnPage id row p.used), f)
    else
      let f := f.unbucket p
      if p.rows = 1 then (.ok true, { f with used := f.used - p.used.toUInt64 }.retire id)
      else
        let less : DataPage := ⟨id, p.used - row, p.rows - 1⟩
        (.ok false, ({ f with used := f.used - row.toUInt64 }.putPage less).rebucket less)

def evict (f : FreeList) (id : PageId) : Except Fault Unit × FreeList :=
  match f.page? id with
  | none => (.error (.pageHoldsNoRows id), f)
  | some p => (.ok (), { f.unbucket p with used := f.used - p.used.toUInt64 }.retire id)

/-! ## The pool -/

def recycle (f : FreeList) (isAllocated : PageId → Bool) (id : PageId) :
    Except Fault Unit × FreeList :=
  if f.holds id then (.error (.pageStillHoldsRows id), f)
  else if id ∈ f.marked then (.error (.pageAlreadyRecycled id), f)
  else if !isAllocated id then (.error (.pageNotInRegion f.region id), f)
  else (.ok (), f.pushPool id)

def takeRecycled (f : FreeList) : Except Fault PageId × FreeList :=
  match f.popPool with
  | none => (.error (.noRecycledPage f.region), f)
  | some (id, f) => (.ok id, f)

def pooled (f : FreeList) : Nat := f.pool.length

/-! ## Accounts -/

/-- The bytes in use, and those that the data pages can hold. The pool counts for neither. -/
def fill (f : FreeList) : Nat × Nat := (f.used.toNat, f.pages.length * f.capacity.toNat)

def statistics (f : FreeList) : Note :=
  ⟨.info, "FreeList statistics [region=" ++ Text.visible f.region ++ ", data_pages="
    ++ toString f.pages.length ++ ", empty_pages=" ++ toString f.pool.length ++ ", used="
    ++ Quantity.human (UInt64.ofNat f.fill.1) ++ ", capacity="
    ++ Quantity.human (UInt64.ofNat f.fill.2) ++ ", buckets=["
    ++ ", ".intercalate (f.buckets.map fun ids => toString ids.length) ++ "]]"⟩

end FreeList

end PageRegions
