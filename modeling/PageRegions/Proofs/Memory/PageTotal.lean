import Mathlib.Data.UInt
import PageRegions.Memory.Metered
import PageRegions.Proofs.Memory.Lifetime
import PageRegions.Proofs.Memory.Rising

/-!
# The total of pages

Page memory counts its loaded pages in a word of its own, and the metrics of its region count them a
second time, as a signed total that every page handed out raises and every page given back lowers.
Nothing ties the two together but that they are changed in the same calls.

Stopping is not such a call. It sets the word of page memory to zero and leaves the total alone, so
from then on the total is too high by the pages that were loaded when page memory was stopped.
These are counted here (`MeteredSession.dropped`), for the proof only. With them the two agree as
words whatever is called (`Counted`), and so the total mirrors page memory as long as nothing was
dropped, and no longer.

That this is a fact about words matters only if the size of a page with its header wraps: then pages
may overlap, what is written to one may mark another that was given back already, and page memory
counts below zero. Both words do so alike, but the total is then reported as zero.
-/

set_option autoImplicit false

namespace PageRegions

/-! ## Words that are totals -/

namespace RegionMetrics

variable {m : RegionMetrics}

theorem lt_zero_iff (n : Int64) : n < 0 ↔ 2 ^ 63 ≤ n.toUInt64.toNat := by
  have hsigned : n.toInt = n.toBitVec.toInt := rfl
  have hword : n.toUInt64.toNat = n.toBitVec.toNat := rfl
  have hlt := n.toBitVec.isLt
  rw [Int64.lt_iff_toInt_lt, Int64.toInt_zero, hsigned, hword, BitVec.toInt_eq_toNat_cond]
  split <;> omega

/-- A total that is negative is reported as zero, and any other as it is. -/
theorem totalPages_eq (m : RegionMetrics) : m.totalPages
    = if m.total.toUInt64.toNat < 2 ^ 63 then m.total.toUInt64 else 0 := by
  unfold totalPages
  by_cases hneg : m.total < 0
  · rw [if_pos hneg, if_neg (Nat.not_lt.mpr ((lt_zero_iff _).mp hneg))]
  · rw [if_neg hneg, if_pos (Nat.not_le.mp fun hle => hneg ((lt_zero_iff _).mpr hle))]

/-- Metrics that are kept add what they count to the total. -/
theorem countPages_enabled (henabled : m.enabled = true) (now : UInt64) (change : Int64) :
    (m.countPages now change).enabled = true
      ∧ (m.countPages now change).total = m.total + change := by
  unfold countPages
  rw [if_neg (by rw [henabled]; decide)]
  split <;> exact ⟨henabled, rfl⟩

end RegionMetrics

/-! ## What calls do to the count of page memory -/

namespace PageMemory

variable {m m' : PageMemory} {h k : Host}

theorem loaded_start (m : PageMemory) (h : Host) : (m.start h).2.1.loaded = m.loaded := by
  unfold PageMemory.start
  split
  · rfl
  · rcases m.provider.announce (Segments.sizes m.initialSize m.maxSize) h with
      ⟨fault | _, provider, k⟩
    · rfl
    · have hnext := (({ m with provider := provider } : PageMemory).mapNext_position k).1
      rcases hmap : ({ m with provider := provider } : PageMemory).mapNext k with
        ⟨fault | _, m', k'⟩ <;> rw [hmap] at hnext <;> simp only [hmap] <;> exact hnext

theorem loaded_stop (m : PageMemory) (h : Host) :
    (m.stop h).2.1.loaded = if m.started then 0 else m.loaded := by
  unfold PageMemory.stop
  cases m.started <;> rfl

theorem loaded_mapUntilUnused (m : PageMemory) (h : Host) :
    (m.mapUntilUnused h).2.1.loaded = m.loaded := by
  fun_induction m.mapUntilUnused h with
  | case1 m h hunused => rfl
  | case2 m h hfull fault m₁ h₁ hnext =>
    have hstep := (m.mapNext_position h).1
    rwa [hnext] at hstep
  | case3 m h hfull m₁ h₁ hnext ih =>
    have hstep := (m.mapNext_position h).1
    rw [hnext] at hstep
    exact ih.trans hstep

/-- Allocating counts one page, or none if it fails. -/
theorem loaded_allocate {result : Except Fault PageId} (hout : m.allocate h = (result, m', k)) :
    m'.loaded = match result with
      | .ok _ => m.loaded + 1
      | .error _ => m.loaded := by
  unfold PageMemory.allocate at hout
  split at hout
  · cases hout
    rfl
  · split at hout
    · cases hout
      rfl
    · have hmapped := m.loaded_mapUntilUnused h
      split at hout
      · next fault m₁ k₁ hmap =>
        rw [hmap] at hmapped
        split at hout <;> cases hout <;> exact hmapped
      · next m₁ k₁ hmap =>
        rw [hmap] at hmapped
        cases hout
        exact congrArg (· + 1) hmapped

/-- Giving a page back takes one off, or none if it fails. -/
theorem loaded_free {page : PageId} {result : Except Fault Unit}
    (hout : m.free page h = (result, m', k)) :
    m'.loaded = match result with
      | .ok () => m.loaded - 1
      | .error _ => m.loaded := by
  unfold PageMemory.free at hout
  split at hout <;> cases hout <;> rfl

end PageMemory

/-! ## Sessions that are counted -/

/-- Page memory in use that is counted. -/
structure MeteredSession where
  metered : MeteredMemory
  host : Host
  ledger : Ledger
  /-- The pages that were loaded when page memory was stopped, over all times that it was. -/
  dropped : Nat

namespace MeteredSession

/-- The session without its metrics. -/
def session (s : MeteredSession) : Session := ⟨s.metered.memory, s.host, s.ledger⟩

/-- Carries a call out. -/
def perform (s : MeteredSession) : MemoryCall → MeteredSession
  | .start =>
    let (_, metered, host) := s.metered.start s.host
    { s with metered := metered, host := host }
  | .stop =>
    let (_, metered, host) := s.metered.stop s.host
    ⟨metered, host, .empty,
      s.dropped + if s.metered.memory.started then s.metered.memory.loaded.toNat else 0⟩
  | .allocate =>
    match s.metered.allocate s.host with
    | (.ok page, metered, host) =>
      { s with metered := metered, host := host, ledger := s.ledger.add page }
    | (.error _, metered, host) => { s with metered := metered, host := host }
  | .free page =>
    match s.metered.free page s.host with
    | (.ok (), metered, host) =>
      { s with metered := metered, host := host, ledger := s.ledger.strike page }
    | (.error _, metered, host) => { s with metered := metered, host := host }
  | .write page offset byte =>
    { s with host := s.metered.memory.poke s.host page offset byte }

/-- The sessions that calls lead to, of page memory with metrics that are its own and are kept from
the start, with other use of the host in between. -/
inductive Reached (o : RegionOptions) (pageSize : UInt32) (backing : Backing) :
    MeteredSession → Prop
  | fresh (host : Host) (sound : host.Sound) (enabled : o.metricsEnabled = true)
      (link? : Option ListLink) :
      Reached o pageSize backing ⟨⟨PageMemory.fresh o pageSize backing,
        RegionMetrics.fresh host.now o link?⟩, host, .empty, 0⟩
  | call (c : MemoryCall) {s : MeteredSession} (before : Reached o pageSize backing s) :
      Reached o pageSize backing (s.perform c)
  | outside (host : Host) {s : MeteredSession} (before : Reached o pageSize backing s)
      (leaves : s.metered.memory.Outside s.host host) :
      Reached o pageSize backing { s with host := host }

variable {s : MeteredSession}

/-- Counting pages does not change what page memory does. -/
theorem session_perform (s : MeteredSession) (c : MemoryCall) :
    (s.perform c).session = s.session.perform c := by
  obtain ⟨⟨memory, metrics⟩, host, ledger, dropped⟩ := s
  cases c with
  | start => rfl
  | stop => rfl
  | allocate =>
    unfold perform Session.perform MeteredMemory.allocate session
    rcases hout : memory.allocate host with ⟨_ | page, memory', host'⟩ <;> simp only [hout]
  | free page =>
    unfold perform Session.perform MeteredMemory.free session
    rcases hout : memory.free page host with ⟨_ | _, memory', host'⟩ <;> simp only [hout]
  | write page offset byte => rfl

theorem Reached.session {o : RegionOptions} {pageSize : UInt32} {backing : Backing}
    (hs : Reached o pageSize backing s) : Session.Reached o pageSize backing s.session := by
  induction hs with
  | fresh host sound => exact .fresh host sound
  | call c _ ih =>
    rw [session_perform]
    exact ih.call c
  | outside host _ leaves ih => exact ih.outside host leaves

/-- The total and the count of page memory agree, as words, up to what was dropped. -/
structure Counted (s : MeteredSession) : Prop where
  enabled : s.metered.metrics.enabled = true
  total : s.metered.metrics.total.toUInt64
    = s.metered.memory.loaded + UInt64.ofNat s.dropped

/-- One call changes both counts alike, or drops what it takes off one of them. -/
theorem Counted.perform (hs : s.Counted) (c : MemoryCall) : (s.perform c).Counted := by
  obtain ⟨⟨memory, metrics⟩, host, ledger, dropped⟩ := s
  obtain ⟨henabled, htotal⟩ := hs
  change metrics.total.toUInt64 = memory.loaded + UInt64.ofNat dropped at htotal
  cases c with
  | start => exact ⟨henabled, htotal.trans (by rw [← memory.loaded_start host]; rfl)⟩
  | stop =>
    refine ⟨henabled, ?_⟩
    change metrics.total.toUInt64 = (memory.stop host).2.1.loaded
      + UInt64.ofNat (dropped + if memory.started then memory.loaded.toNat else 0)
    rw [memory.loaded_stop host, htotal]
    cases memory.started with
    | false => simp
    | true => simp [UInt64.ofNat_add, UInt64.add_comm]
  | allocate =>
    unfold MeteredSession.perform MeteredMemory.allocate
    rcases hout : memory.allocate host with ⟨fault | page, m', k⟩ <;> simp only [hout]
    · exact ⟨henabled, htotal.trans (by rw [PageMemory.loaded_allocate hout])⟩
    · obtain ⟨hkept, hcounted⟩ := RegionMetrics.countPages_enabled henabled k.now 1
      refine ⟨hkept, ?_⟩
      change (metrics.countPages k.now 1).total.toUInt64 = m'.loaded + UInt64.ofNat dropped
      rw [hcounted, Int64.toUInt64_add, htotal, PageMemory.loaded_allocate hout,
        add_right_comm]
      rfl
  | free page =>
    unfold MeteredSession.perform MeteredMemory.free
    rcases hout : memory.free page host with ⟨fault | _, m', k⟩ <;> simp only [hout]
    · exact ⟨henabled, htotal.trans (by rw [PageMemory.loaded_free hout])⟩
    · obtain ⟨hkept, hcounted⟩ := RegionMetrics.countPages_enabled henabled k.now (-1)
      refine ⟨hkept, ?_⟩
      change (metrics.countPages k.now (-1)).total.toUInt64 = m'.loaded + UInt64.ofNat dropped
      rw [hcounted, Int64.toUInt64_add, htotal, PageMemory.loaded_free hout,
        UInt64.sub_eq_add_neg, add_right_comm]
      rfl
  | write page offset byte => exact ⟨henabled, htotal⟩

theorem Reached.counted {o : RegionOptions} {pageSize : UInt32} {backing : Backing}
    (hs : Reached o pageSize backing s) : s.Counted := by
  induction hs with
  | fresh host _ enabled => exact ⟨enabled, rfl⟩
  | call c _ ih => exact ih.perform c
  | outside host _ _ ih => exact ⟨ih.enabled, ih.total⟩

/-- What the total of the metrics says of page memory with pages of a size. -/
structure Mirrored (s : MeteredSession) (pageSize : UInt32) : Prop where
  /-- The total is that of the pages that are loaded and of those that were dropped. -/
  total : s.metered.memory.loaded.toNat + s.dropped < 2 ^ 63 →
    s.metered.metrics.totalPages.toNat = s.metered.memory.loaded.toNat + s.dropped
  /-- So it mirrors page memory just if nothing was dropped. -/
  agree : s.metered.memory.loaded.toNat + s.dropped < 2 ^ 63 →
    (s.metered.metrics.totalPages = s.metered.memory.loaded ↔ s.dropped = 0)
  /-- If nothing was dropped, it does so for every count that is not negative as a signed word. -/
  mirrors : s.dropped = 0 → (s.metered.metrics.totalPages = s.metered.memory.loaded
    ↔ s.metered.memory.loaded.toNat < 2 ^ 63)
  /-- Page memory counts pages that are allocated, and there are never many of them. -/
  loaded : pageSize.toNat + 24 < 2 ^ 32 →
    s.metered.memory.loaded.toNat = s.ledger.allocated.length
      ∧ s.metered.memory.loaded.toNat < 2 ^ 37

/-- **The total mirrors page memory until pages are dropped** by stopping it. -/
theorem reached_mirrored {o : RegionOptions} {pageSize : UInt32} {backing : Backing}
    (hs : Reached o pageSize backing s) : s.Mirrored pageSize := by
  have htotal := hs.counted.total
  have htotal_of_lt : s.metered.memory.loaded.toNat + s.dropped < 2 ^ 63 →
      s.metered.metrics.totalPages.toNat = s.metered.memory.loaded.toNat + s.dropped := by
    intro hlt
    have hsum : s.metered.metrics.total.toUInt64.toNat
        = s.metered.memory.loaded.toNat + s.dropped := by
      rw [htotal, UInt64.toNat_add, UInt64.toNat_ofNat', Nat.add_mod_mod,
        Nat.mod_eq_of_lt (by omega)]
    rw [RegionMetrics.totalPages_eq, hsum, if_pos hlt, hsum]
  refine ⟨htotal_of_lt, fun hlt => ?_, fun hnone => ?_, fun hsize => ?_⟩
  · rw [← UInt64.toNat_inj, htotal_of_lt hlt]
    omega
  · have hsame : s.metered.metrics.total.toUInt64 = s.metered.memory.loaded := by
      rw [htotal, hnone]
      exact UInt64.add_zero _
    rw [RegionMetrics.totalPages_eq, hsame]
    split
    · next hlt => exact iff_of_true rfl hlt
    · next hlarge =>
      refine iff_of_false (fun hzero => hlarge ?_) hlarge
      rw [← hzero]
      decide
  · have hbalanced := hs.session.balanced hsize
    have hcount : s.metered.memory.loaded.toNat = s.ledger.allocated.length := hbalanced.loaded
    have hlength := hbalanced.behind.length
    have hle := hbalanced.layout.handedOut_le
    have hlt := hbalanced.layout.total_lt
    rw [List.length_append] at hlength
    change s.ledger.allocated.length + _ = _ at hlength
    exact ⟨hcount, by omega⟩

/-- A region of a kilobyte whose metrics are kept from the start. -/
def someOptions : RegionOptions := ⟨"r", 1000, 1000, .disabled, .nan, 0, "", true, 60000, 5⟩

/-- Page memory of that region, on a host without files. -/
def someSession : MeteredSession :=
  ⟨⟨PageMemory.fresh someOptions 100 .anonymous, RegionMetrics.fresh 0 someOptions none⟩,
    Host.fresh FileTree.scratch fun _ => 0, .empty, 0⟩

theorem reached_someSession : Reached someOptions 100 .anonymous someSession := by
  have hnone : ∀ path block, ¬ FileTree.scratch.Shows path block := by
    rintro path block ⟨size, hmem⟩
    simp [FileTree.scratch] at hmem
  exact .fresh (Host.fresh FileTree.scratch fun _ => 0)
    ⟨fun path block h => absurd h (hnone path block),
      fun path _ block h => absurd h (hnone path block)⟩ rfl none

/-- Two pages are handed out, and a third that never was is not given back. -/
theorem reached_mirrored_two_pages :
    ((((someSession.perform .start).perform .allocate).perform .allocate).perform
        (.free ⟨0, 2⟩)).Mirrored 100
      ∧ ((((someSession.perform .start).perform .allocate).perform .allocate).perform
        (.free ⟨0, 2⟩)).metered.metrics.totalPages = 2 := by
  refine ⟨reached_mirrored ((((reached_someSession.call .start).call .allocate).call
    .allocate).call (.free ⟨0, 2⟩)), ?_⟩
  decide +kernel

/-- **A page that is loaded when page memory is stopped stays in the total.** -/
theorem mirrored_not_stopped :
    Reached someOptions 100 .anonymous
        (((someSession.perform .start).perform .allocate).perform .stop)
      ∧ (((someSession.perform .start).perform .allocate).perform .stop).metered.memory.loaded = 0
      ∧ (((someSession.perform .start).perform .allocate).perform .stop).metered.metrics.totalPages
        = 1 := by
  refine ⟨((reached_someSession.call .start).call .allocate).call .stop, ?_, ?_⟩
  · decide +kernel
  · decide +kernel

end MeteredSession
end PageRegions
