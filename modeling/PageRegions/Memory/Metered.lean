import PageRegions.Memory.PageMemory
import PageRegions.Metrics.RegionMetrics

/-!
# Page memory that is counted

The page memory of a region together with the metrics of the region: each page that is handed out
or given back is counted. Starting and stopping page memory is not.
-/

set_option autoImplicit false

namespace PageRegions

/-- Page memory and the metrics that count its pages. -/
structure MeteredMemory where
  memory : PageMemory
  metrics : RegionMetrics
  deriving DecidableEq, Repr

namespace MeteredMemory

def start (s : MeteredMemory) (h : Host) : Except Fault Unit × MeteredMemory × Host :=
  match s with
  | ⟨memory, metrics⟩ =>
    let (result, memory, h) := memory.start h
    (result, ⟨memory, metrics⟩, h)

def stop (s : MeteredMemory) (h : Host) : Except Fault Unit × MeteredMemory × Host :=
  match s with
  | ⟨memory, metrics⟩ =>
    let (result, memory, h) := memory.stop h
    (result, ⟨memory, metrics⟩, h)

def allocate (s : MeteredMemory) (h : Host) : Except Fault PageId × MeteredMemory × Host :=
  match s with
  | ⟨memory, metrics⟩ =>
    match memory.allocate h with
    | (.ok page, memory, h) => (.ok page, ⟨memory, metrics.countPages h.now 1⟩, h)
    | (.error fault, memory, h) => (.error fault, ⟨memory, metrics⟩, h)

def free (s : MeteredMemory) (page : PageId) (h : Host) :
    Except Fault Unit × MeteredMemory × Host :=
  match s with
  | ⟨memory, metrics⟩ =>
    match memory.free page h with
    | (.ok (), memory, h) => (.ok (), ⟨memory, metrics.countPages h.now (-1)⟩, h)
    | (.error fault, memory, h) => (.error fault, ⟨memory, metrics⟩, h)

end MeteredMemory

end PageRegions
