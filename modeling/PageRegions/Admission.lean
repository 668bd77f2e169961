import PageRegions.Options.Settings

/-!
# Admission: making room before a row is placed

A region has a watermark, a share of the pages that fit in its maximum size. While more pages than
that are loaded and fewer pages than the region wants are pooled, one page after the other is
evicted; evicting does not unload pages, it adds them to the pool. Rows are only admitted after
that.

What is counted and how a page is evicted is given by a `Supply`. An eviction that succeeds without
adding to the pool would be repeated for ever, so making room has an outcome for that: `none`, it
never returns.
-/

set_option autoImplicit false

namespace PageRegions

/-- The pages of a region, as far as making room is concerned. -/
structure Supply (σ : Type) where
  loaded : σ → UInt64
  pooled : σ → UInt64
  evict : σ → Except Fault Unit × σ

namespace Supply

variable {σ : Type} (v : Supply σ)

/-- Whether a page has to be evicted. -/
def isShort (watermark : Binary64) (target : UInt64) (s : σ) : Bool :=
  watermark.less (Binary64.ofNat (v.loaded s).toNat) && decide (v.pooled s < target)

/-- Evicts pages until the supply is no longer short. The first fault ends it. -/
def makeRoom (watermark : Binary64) (target : UInt64) (s : σ) :
    Option (Except Fault Unit) × σ :=
  if _hs : v.isShort watermark target s then
    match v.evict s with
    | (.error fault, t) => (some (.error fault), t)
    | (.ok (), t) =>
      if _ht : v.pooled s < v.pooled t then makeRoom watermark target t else (none, t)
  else (some (.ok ()), s)
  termination_by target.toNat - (v.pooled s).toNat
  decreasing_by
    have h : v.pooled s < target := by
      simp only [isShort, Bool.and_eq_true, decide_eq_true_eq] at _hs
      exact _hs.2
    have := UInt64.lt_iff_toNat_lt.1 _ht
    have := UInt64.lt_iff_toNat_lt.1 h
    omega

end Supply

/-- A supply of which nothing but the counts is known. -/
structure PageTally where
  loaded : UInt64
  pooled : UInt64
  /-- Whether a page that is evicted is unloaded, too. -/
  unloads : Bool
  evicted : Nat
  /-- How many can be. -/
  limit : Nat
  /-- Why no more can be. -/
  refusal : Fault
  deriving DecidableEq, Repr

namespace PageTally

def evict (t : PageTally) : Except Fault Unit × PageTally :=
  if t.limit ≤ t.evicted then (.error t.refusal, t)
  else
    (.ok (),
      { t with
        loaded := if t.unloads then t.loaded - 1 else t.loaded
        pooled := t.pooled + 1
        evicted := t.evicted + 1 })

def supply : Supply PageTally := ⟨loaded, pooled, evict⟩

end PageTally

namespace RegionOptions

/-- The count of loaded pages above which room is made. -/
def watermark (o : RegionOptions) (systemPageSize : UInt32) : Binary64 :=
  (Binary64.ofNat (o.maxSize / systemPageSize.toUInt64).toNat).mul o.threshold

/-- How many pages are to be pooled, as an unsigned word: a negative count is a huge one. -/
def poolTarget (o : RegionOptions) : UInt64 := o.poolSize.toInt64.toUInt64

/-- Whether pages of the region are evicted at all. -/
def evicts (o : RegionOptions) (persistence : Bool) : Bool :=
  !persistence && decide (o.mode ≠ .disabled)

/-- What is noted when room could not be made. -/
def refusalNote (o : RegionOptions) (loaded pooled : UInt64) (watermark : Binary64)
    (fault : Fault) : Note :=
  ⟨.error, "Page eviction failed in region " ++ Text.visible o.name ++ " [loaded_pages="
    ++ toString loaded.toNat ++ ", empty_pages=" ++ toString pooled.toNat ++ ", watermark="
    ++ watermark.toFixed 1 ++ "]: " ++ fault.text⟩

/-- Makes room in a region, if its pages are evicted at all, and notes why it failed. -/
def ensureRoom {σ : Type} (o : RegionOptions) (persistence : Bool) (systemPageSize : UInt32)
    (v : Supply σ) (s : σ) : Option (Except Fault Unit) × List Note × σ :=
  if !o.evicts persistence then (some (.ok ()), [], s)
  else
    let watermark := o.watermark systemPageSize
    match v.makeRoom watermark o.poolTarget s with
    | (some (.error fault), s) =>
      (some (.error fault), [o.refusalNote (v.loaded s) (v.pooled s) watermark fault], s)
    | (result, s) => (result, [], s)

end RegionOptions

end PageRegions
