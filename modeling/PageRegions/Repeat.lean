import PageRegions.Fault

/-!
# Doing something again and again

Pages are allocated, rows are placed and pages are evicted one at a time. To do so several times is
to stop at the first fault, and to keep what was won until then.
-/

set_option autoImplicit false

namespace PageRegions

/-- Does something up to the given number of times. The results until the first fault, and whether
there was one. -/
def repeatUntilFault {σ α : Type} (act : σ → Except Fault α × σ) :
    Nat → σ → Except Fault Unit × List α × σ
  | 0, s => (.ok (), [], s)
  | n + 1, s =>
    match act s with
    | (.error fault, s) => (.error fault, [], s)
    | (.ok a, s) =>
      let (result, more, s) := repeatUntilFault act n s
      (result, a :: more, s)

end PageRegions
