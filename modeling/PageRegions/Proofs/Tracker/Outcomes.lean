import PageRegions.Tracker.RowStore

/-!
# What evicting can end in

Trackers differ in which page they pick. What picking does to the tracked pages is the same for all
of them: some pages that hold no rows are dropped from the tracker, and then either a page that
holds rows is evicted and leaves, or nothing is. `Eviction` says this once. Nothing that follows
from it depends on the order of touches or on the lots that were drawn.

All of it is about stores that drop what they hold and nothing else (`LawfulRowStore`).
-/

set_option autoImplicit false

namespace PageRegions

/-- A store that drops the rows of a page just if it holds any, and then those of no other. -/
class LawfulRowStore (σ : Type) [RowStore σ] : Prop where
  drop_of_holds : ∀ (s : σ) (page : PageId), RowStore.holdsRows s page = true →
    (RowStore.dropRows s page).1 = .ok ()
  drop_of_not_holds : ∀ (s : σ) (page : PageId), RowStore.holdsRows s page = false →
    ∃ fault : Fault, fault.kind = .notFound ∧ RowStore.dropRows s page = (.error fault, s)
  holds_drop : ∀ (s : σ) (page x : PageId), RowStore.holdsRows s page = true →
    RowStore.holdsRows (RowStore.dropRows s page).2 x
      = (decide (x ≠ page) && RowStore.holdsRows s x)

section Stores

variable {σ : Type} [RowStore σ] [LawfulRowStore σ]

/-- Asking a lawful store to drop a page has two outcomes. -/
theorem dropRows_cases (s : σ) (page : PageId) :
    (RowStore.holdsRows s page = true ∧ ∃ t, RowStore.dropRows s page = (.ok (), t))
      ∨ (RowStore.holdsRows s page = false
        ∧ ∃ fault : Fault, fault.kind = .notFound
          ∧ RowStore.dropRows s page = (.error fault, s)) := by
  cases hholds : RowStore.holdsRows s page with
  | true =>
    refine Or.inl ⟨rfl, (RowStore.dropRows s page).2, ?_⟩
    rw [← LawfulRowStore.drop_of_holds s page hholds]
  | false => exact Or.inr ⟨rfl, LawfulRowStore.drop_of_not_holds s page hholds⟩

end Stores

/-- Whether a fault says that no page was evicted because none was found that could be. -/
def Fault.deniesVictim : Fault → Bool
  | .nothingTracked | .evictionAttemptsUsedUp .. => true
  | _ => false

theorem Fault.kind_of_deniesVictim {fault : Fault} (hfault : fault.deniesVictim = true) :
    fault.kind = .aborted := by
  cases fault <;> cases hfault <;> rfl

/-- What evicting a page can end in: `stale` tracked pages without rows are dropped, and then there
is a victim, or there is none. Up to `limit` pages without rows are dropped before that is given
up. -/
inductive Eviction {σ : Type} [RowStore σ] (limit : Nat) (s : σ) (tracked : List PageId) :
    Except Fault PageId → List PageId → σ → Prop
  | evicted (victim : PageId) (stale left : List PageId) (t : σ)
      (holds : RowStore.holdsRows s victim = true)
      (dropped : RowStore.dropRows s victim = (.ok (), t))
      (empty : ∀ x ∈ stale, RowStore.holdsRows s x = false)
      (perm : tracked.Perm (victim :: (stale ++ left))) :
      Eviction limit s tracked (.ok victim) left t
  | refused (fault : Fault) (stale left : List PageId) (cause : fault.deniesVictim = true)
      (empty : ∀ x ∈ stale, RowStore.holdsRows s x = false)
      (perm : tracked.Perm (stale ++ left))
      (why : left = [] ∨ limit ≤ stale.length) :
      Eviction limit s tracked (.error fault) left s

namespace Eviction

variable {σ : Type} [RowStore σ] {limit : Nat} {s t : σ} {tracked left : List PageId}
  {result : Except Fault PageId}

/-- A page without rows that is dropped first uses up an attempt. -/
theorem afterStale {page : PageId} {rest : List PageId}
    (h : Eviction limit s rest result left t) (hpage : RowStore.holdsRows s page = false)
    (hperm : tracked.Perm (page :: rest)) : Eviction (limit + 1) s tracked result left t := by
  have hcons : ∀ stale : List PageId, (∀ x ∈ stale, RowStore.holdsRows s x = false) →
      ∀ x ∈ page :: stale, RowStore.holdsRows s x = false := by
    intro stale hstale x hx
    rcases List.mem_cons.mp hx with rfl | hx
    · exact hpage
    · exact hstale x hx
  cases h with
  | evicted victim stale _ _ holds dropped empty perm =>
    refine .evicted victim (page :: stale) left t holds dropped (hcons stale empty) ?_
    exact hperm.trans ((perm.cons page).trans (List.Perm.swap _ _ _))
  | refused fault stale _ cause empty perm why =>
    refine .refused fault (page :: stale) left cause (hcons stale empty)
      (hperm.trans (perm.cons page)) ?_
    rcases why with hleft | hlimit
    · exact Or.inl hleft
    · exact Or.inr (Nat.succ_le_succ hlimit)

end Eviction

end PageRegions
