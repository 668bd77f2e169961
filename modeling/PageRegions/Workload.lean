import PageRegions.Region

/-!
# Workloads

Several clients that each take the same number of steps, done one client after the other. What
comes out in the end does not depend on how their steps are interleaved, because each step is done
as a whole and the counts that are looked at only add up.
-/

set_option autoImplicit false

namespace PageRegions

/-- Clients, and the number of steps that each of them takes. -/
structure Workload where
  clients : Nat
  steps : Nat
  deriving DecidableEq, Repr

/-- What came of a workload of rows. -/
structure RowWork where
  /-- The pages of the rows that were placed. -/
  placed : List PageId
  /-- How many rows were removed again. -/
  removed : Nat
  region : Region

def RowWork.pages (w : RowWork) : Nat := w.placed.eraseDups.length

namespace Workload

/-- The numbers of all steps. Each client counts its own from 0. -/
def indices (w : Workload) : List Nat :=
  (List.range w.clients).flatMap fun _ => List.range w.steps

/-- Counts hits in a window: none, one or two at a time. -/
def hits (w : Workload) (window : RateWindow) (now : UInt64) : RateWindow :=
  w.indices.foldl (fun window i => window.hit now (UInt64.ofNat (i % 3))) window

/-- Counts pages in the metrics of a region: two more, then one less, and with each step an
eviction. -/
def counts (w : Workload) (metrics : RegionMetrics) (now : UInt64) : RegionMetrics :=
  w.indices.foldl
    (fun m i => (m.countPages now (if i % 2 = 0 then 2 else -1)).countEviction now) metrics

def everyOther {α : Type} : List α → List α
  | a :: _ :: more => a :: everyOther more
  | l => l

/-- Removes rows that may be gone: how many were there. -/
def removeRows (row : UInt32) (r : Region) : List PageId → Nat × Region
  | [] => (0, r)
  | page :: more =>
    match r.removeRow page row with
    | (.ok (), r) =>
      let (n, r) := removeRows row r more
      (n + 1, r)
    | (.error _, r) => removeRows row r more

/-- Each client places rows. If all of them were placed, each client then removes every other one
of its own. -/
def rows (w : Workload) (row : UInt32) (r : Region) (h : Host) : RowWork :=
  let (_, placed, r, _) := r.insertRows row (w.clients * w.steps) h
  let own (client : Nat) : List PageId := (placed.drop (client * w.steps)).take w.steps
  if placed.length < w.clients * w.steps then ⟨placed, 0, r⟩
  else
    let (removed, r) := removeRows row r ((List.range w.clients).flatMap (everyOther <| own ·))
    ⟨placed, removed, r⟩

end Workload

end PageRegions
