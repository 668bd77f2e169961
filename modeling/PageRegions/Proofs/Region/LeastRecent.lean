import PageRegions.Proofs.Region.Eviction
import PageRegions.Proofs.Tracker.Histories

/-!
# The least recent page goes first

A sampled tracker with few pages draws no lots: it looks at all of them. Then its victim is the page
that holds rows and was touched least recently, by the rule of rank that is in use. What the rules
go by is read off a history of calls here (`touchTimes`): the times at which a page was touched
since it was last tracked anew, and nothing of the slots and the records in which a tracker keeps
them.

That the records tell the same is an invariant (`Remembers`). All calls but touching are covered at
once: whatever they do to the slots, they leave the times of the pages that stay (`Shrunk`).
-/

set_option autoImplicit false

namespace PageRegions

/-! ## What a history tells -/

/-- What a page goes by that was touched at the given times, the latest first. A page that was
touched once has no second latest time. -/
def Recency.key (r : Recency) (times : List UInt64) : UInt64 :=
  match r with
  | .latest => times.getD 0 0
  | .secondLatest => times.getD 1 0

@[simp] theorem Recency.latest_touched (r : Recency) (record : TouchRecord) (now : UInt64) :
    (r.touched record now).latest = now := by
  cases r <;> rfl

@[simp] theorem Recency.previous_touched (record : TouchRecord) (now : UInt64) :
    (Recency.secondLatest.touched record now).previous = record.latest := rfl

namespace TrackerCall

variable {σ : Type}

/-- The time of a touch, if it is the given page that is touched. -/
def touches (call : TrackerCall σ) (page : PageId) : List UInt64 :=
  match call with
  | .touch x now => if x = page then [now] else []
  | _ => []

end TrackerCall

namespace SampledTracker

variable {σ : Type} [RowStore σ]

/-- The times at which each page was touched since it was last tracked anew, the latest first. The
times before the calls are given. -/
def touchTimes (t : SampledTracker) (times : PageId → List UInt64) :
    List (TrackerCall σ) → PageId → List UInt64
  | [] => times
  | call :: more =>
    (t.perform call).touchTimes (fun page =>
      if page ∈ (t.perform call).pages then call.touches page ++ times page else []) more

/-- A tracker that has lost pages, but has the times of those that it kept. -/
structure Shrunk (t u : SampledTracker) : Prop where
  coherent : u.Coherent
  recency : u.recency = t.recency
  records : ∀ (page : PageId) (record : TouchRecord), u.records[page]? = some record →
    ∃ old, t.records[page]? = some old ∧ old.latest = record.latest
      ∧ old.previous = record.previous

variable {t u v : SampledTracker} {page : PageId}

theorem Shrunk.refl (ht : t.Coherent) : Shrunk t t where
  coherent := ht
  recency := rfl
  records _ record h := ⟨record, h, rfl, rfl⟩

theorem Shrunk.trans (h : Shrunk t u) (h' : Shrunk u v) : Shrunk t v where
  coherent := h'.coherent
  recency := h'.recency.trans h.recency
  records page record hrecord := by
    obtain ⟨mid, hmid, hlatest, hprevious⟩ := h'.records page record hrecord
    obtain ⟨old, hold, hlatest', hprevious'⟩ := h.records page mid hmid
    exact ⟨old, hold, hlatest'.trans hlatest, hprevious'.trans hprevious⟩

/-- The page that moves into the gap keeps its times. -/
theorem Coherent.shrunk_remove (ht : t.Coherent) (page : PageId) : Shrunk t (t.remove page) := by
  refine ⟨(ht.remove page).1, remove_recency, ?_⟩
  rcases ht.remove_cases page with ⟨-, hsame⟩ | ⟨last, gap, record, h⟩
  · rw [hsame]
    exact (Shrunk.refl ht).records
  · intro x rx hx
    rw [h.records] at hx
    by_cases hpage : page = x
    · rw [if_pos hpage] at hx
      cases hx
    by_cases hlast : last = x
    · rw [if_neg hpage, if_pos hlast] at hx
      cases hx
      exact ⟨record, hlast ▸ h.last_record, rfl, rfl⟩
    · rw [if_neg hpage, if_neg hlast] at hx
      exact ⟨rx, hx, rfl, rfl⟩

theorem Coherent.shrunk_forget (ht : t.Coherent) (s : σ) (page : PageId) :
    Shrunk t (t.forget s page) := by
  unfold SampledTracker.forget
  split
  · exact .refl ht
  · exact ht.shrunk_remove page

theorem Coherent.shrunk_evictWithin (ht : t.Coherent) (n : Nat) (s : σ) (h : Host) :
    Shrunk t (evictWithin n t s h).2.1 := by
  induction n generalizing t s h with
  | zero => exact .refl ht
  | succ n ih =>
    unfold evictWithin
    rcases t.pick h with ⟨_ | victim, k⟩
    · exact .refl ht
    have hremove := ht.shrunk_remove victim
    rcases hdrop : RowStore.dropRows s victim with ⟨fault | _, s'⟩ <;> simp only [hdrop]
    · split
      · exact hremove.trans (ih hremove.coherent s' k)
      · exact .refl ht
    · exact hremove

theorem Shrunk.subset (h : Shrunk t u) (ht : t.Coherent) (hpage : page ∈ u.pages) :
    page ∈ t.pages := by
  obtain ⟨record, hrecord⟩ := h.coherent.mem_pages.mp hpage
  obtain ⟨old, hold, -⟩ := h.records page record hrecord
  exact ht.mem_pages.mpr ⟨old, hold⟩

theorem record_eq {record : TouchRecord} (h : t.records[page]? = some record) :
    t.record page = record := by
  rw [SampledTracker.record, Std.HashMap.getD_eq_getD_getElem?, h, Option.getD_some]

theorem Shrunk.rank (h : Shrunk t u) (hpage : page ∈ u.pages) :
    u.recency.rank (u.record page) = t.recency.rank (t.record page) := by
  obtain ⟨record, hrecord⟩ := h.coherent.mem_pages.mp hpage
  obtain ⟨old, hold, hlatest, hprevious⟩ := h.records page record hrecord
  rw [record_eq hrecord, record_eq hold, h.recency]
  cases t.recency <;> simp only [Recency.rank, hlatest, hprevious]

/-! ## What records tell -/

/-- The records of a tracker tell the times at which its pages were touched. -/
structure Remembers (t : SampledTracker) (times : PageId → List UInt64) : Prop where
  coherent : t.Coherent
  stopped : t.started = false → t.pages = []
  told : ∀ (page : PageId) (record : TouchRecord), t.records[page]? = some record →
    ∃ earlier, times page = record.latest :: earlier
      ∧ (t.recency = .secondLatest → record.previous = earlier.getD 0 0)
  untracked : ∀ page, page ∉ t.pages → times page = []

variable {times : PageId → List UInt64}

theorem Remembers.touched (h : t.Remembers times) (hpage : page ∈ t.pages) : times page ≠ [] := by
  obtain ⟨record, hrecord⟩ := h.coherent.mem_pages.mp hpage
  obtain ⟨earlier, htimes, -⟩ := h.told page record hrecord
  rw [htimes]
  exact List.cons_ne_nil _ _

theorem Remembers.shrunk (h : t.Remembers times) (hs : Shrunk t u)
    (hstopped : u.started = false → u.pages = []) :
    u.Remembers fun page => if page ∈ u.pages then [] ++ times page else [] where
  coherent := hs.coherent
  stopped := hstopped
  told page record hrecord := by
    obtain ⟨old, hold, hlatest, hprevious⟩ := hs.records page record hrecord
    obtain ⟨earlier, htimes, hearlier⟩ := h.told page old hold
    refine ⟨earlier, ?_, fun hrecency => ?_⟩
    · rw [if_pos (hs.coherent.mem_pages.mpr ⟨record, hrecord⟩), List.nil_append, htimes, hlatest]
    · exact hprevious ▸ hearlier (hs.recency ▸ hrecency)
  untracked page hpage := if_neg hpage

/-- The time that a touch finds, which is 0 for a new page. -/
theorem Remembers.latest_getD (h : t.Remembers times) (page : PageId) (slot : Nat) :
    (t.records[page]?.getD ⟨slot, 0, 0⟩).latest = (times page).getD 0 0 := by
  cases hold : t.records[page]? with
  | none =>
    rw [h.untracked page (h.coherent.not_mem_pages.mpr hold)]
    rfl
  | some old =>
    obtain ⟨earlier, htimes, -⟩ := h.told page old hold
    rw [htimes]
    rfl

theorem getElem?_records_touch (hstarted : t.started = true) (page x : PageId) (now : UInt64) :
    (t.touch page now).records[x]?
      = if page = x then
          some (t.recency.touched (t.records[page]?.getD ⟨t.slots.size, 0, 0⟩) now)
        else t.records[x]? := by
  unfold touch
  rw [if_neg (by simp [hstarted])]
  cases t.records[page]? <;> simp only [Std.HashMap.getElem?_insert, beq_iff_eq, Option.getD]

omit [RowStore σ] in
/-- A touch puts the time in front of those before, which are none if the page is new. -/
theorem Remembers.touch (h : t.Remembers times) (page : PageId) (now : UInt64) :
    (t.touch page now).Remembers fun x =>
      if x ∈ (t.touch page now).pages then
        (TrackerCall.touch (σ := σ) page now).touches x ++ times x
      else [] := by
  have hcoherent := h.coherent.touch page now
  refine ⟨hcoherent, ?_, ?_, fun x hx => if_neg hx⟩
  · intro hstopped
    have hsame : t.touch page now = t := if_pos (by simpa [touch_started] using hstopped)
    rw [hsame]
    exact h.stopped (touch_started.symm.trans hstopped)
  · intro x record hrecord
    have hx := hcoherent.mem_pages.mpr ⟨record, hrecord⟩
    cases hstarted : t.started with
    | false =>
      have hsame : t.touch page now = t := if_pos (by simp [hstarted])
      rw [hsame, h.stopped hstarted] at hx
      cases hx
    | true =>
      rw [if_pos hx, touch_recency]
      rw [getElem?_records_touch hstarted] at hrecord
      by_cases hpage : page = x
      · subst hpage
        rw [if_pos rfl] at hrecord
        cases hrecord
        refine ⟨times page, ?_, fun hrecency => ?_⟩
        · rw [Recency.latest_touched, TrackerCall.touches, if_pos rfl, List.singleton_append]
        · rw [hrecency, Recency.previous_touched, h.latest_getD]
      · rw [if_neg hpage] at hrecord
        simp only [TrackerCall.touches, if_neg hpage, List.nil_append]
        exact h.told x record hrecord

/-- A tracker that is stopped has no pages to lose. -/
theorem Remembers.stopped_shrunk (h : t.Remembers times) (hs : Shrunk t u)
    (hstarted : u.started = t.started) (hstopped : u.started = false) : u.pages = [] := by
  refine List.eq_nil_iff_forall_not_mem.mpr fun page hpage => ?_
  have hmem := hs.subset h.coherent hpage
  rw [h.stopped (hstarted ▸ hstopped)] at hmem
  cases hmem

variable [LawfulRowStore σ]

theorem Remembers.perform (h : t.Remembers times) (call : TrackerCall σ) :
    (t.perform call).Remembers fun page =>
      if page ∈ (t.perform call).pages then call.touches page ++ times page else [] := by
  cases call with
  | start =>
    refine h.shrunk ⟨?_, rfl, (Shrunk.refl h.coherent).records⟩ nofun
    exact ⟨h.coherent.slot_of_record, h.coherent.record_of_slot⟩
  | stop =>
    refine h.shrunk ⟨coherent_fresh t.recency, rfl, ?_⟩ fun _ => rfl
    intro page record hrecord
    simp [SampledTracker.perform, stop, fresh] at hrecord
  | touch page now => exact h.touch page now
  | forget store page =>
    have hs := h.coherent.shrunk_forget store page
    exact h.shrunk hs (h.stopped_shrunk hs (t.forget_started store page))
  | evict store host =>
    have hs := h.coherent.shrunk_evictWithin attemptLimit store host
    obtain ⟨_, _, _, _, heq, -, hstarted, -⟩ :=
      evictWithin_eviction attemptLimit t h.coherent store host
    refine h.shrunk hs (h.stopped_shrunk hs ?_)
    simpa only [SampledTracker.perform, evict, heq] using hstarted

theorem Remembers.after (h : t.Remembers times) (calls : List (TrackerCall σ)) :
    (t.after calls).Remembers (t.touchTimes times calls) := by
  induction calls generalizing t times with
  | nil => exact h
  | cons call more ih => exact ih (h.perform call)

/-! ## Victims -/

/-- The rank of a page is what its times tell, if they are in order. -/
theorem Remembers.rank (h : t.Remembers times) (hpage : page ∈ t.pages)
    (horder : (times page).Pairwise (· ≥ ·)) :
    t.recency.rank (t.record page) = t.recency.key (times page) := by
  obtain ⟨record, hrecord⟩ := h.coherent.mem_pages.mp hpage
  obtain ⟨earlier, htimes, hprevious⟩ := h.told page record hrecord
  rw [record_eq hrecord, htimes]
  rw [htimes] at horder
  cases hrecency : t.recency with
  | latest => rfl
  | secondLatest =>
    have hkey : Recency.key .secondLatest (record.latest :: earlier) = record.previous := by
      rw [hprevious hrecency]
      rfl
    have hle : record.previous ≤ record.latest := by
      rw [hprevious hrecency]
      cases earlier with
      | nil => exact UInt64.zero_le
      | cons time _ => exact (List.pairwise_cons.mp horder).1 time List.mem_cons_self
    rw [hkey, Recency.rank]
    split
    · rfl
    · next hnot => exact UInt64.le_antisymm (UInt64.not_lt.mp hnot) hle

end SampledTracker

end PageRegions
