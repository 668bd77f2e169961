import PageRegions.Fault

/-!
# What trackers evict from

A tracker does not know what a page holds. It asks a store of rows, and tells the store which page
to drop. The least store that there is knows no more than which pages hold rows, and it can be told
to refuse whatever it is asked to drop.
-/

set_option autoImplicit false

namespace PageRegions

class RowStore (σ : Type) where
  holdsRows : σ → PageId → Bool
  /-- Drops the rows of a page. A page without rows is answered by a fault of kind `notFound`. -/
  dropRows : σ → PageId → Except Fault Unit × σ

/-- A store that knows which pages hold rows. -/
structure PageSet where
  pages : List PageId
  /-- Why nothing is dropped, if nothing is. -/
  refusal? : Option Fault
  deriving DecidableEq, Repr

namespace PageSet

def erase (s : PageSet) (page : PageId) : PageSet := { s with pages := s.pages.filter (· ≠ page) }

def insert (s : PageSet) (page : PageId) : PageSet :=
  { s with pages := page :: (s.erase page).pages }

def drop (s : PageSet) (page : PageId) : Except Fault Unit × PageSet :=
  match s.refusal? with
  | some fault => (.error fault, s)
  | none =>
    if page ∈ s.pages then (.ok (), s.erase page) else (.error (.pageHoldsNoRows page), s)

end PageSet

instance : RowStore PageSet where
  holdsRows s page := decide (page ∈ s.pages)
  dropRows := PageSet.drop

end PageRegions
