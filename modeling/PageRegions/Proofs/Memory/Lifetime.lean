import PageRegions.Proofs.Memory.Ledger

/-!
# Page memory over its lifetime

Page memory is made once and then started, stopped and asked for pages in any order. Its callers
give back whatever ids they like and write to the pages they were given; the host refuses mappings
when it likes, and others use it in between (`PageMemory.Outside`). `Session.Reached` are the states
that this leads to.

`Session.reached_accounted` is the result. No page is handed out twice, none is lost, and no two
overlap; memory is said to be used up only if it is; and a call that fails changes nothing that a
caller can see.
-/

set_option autoImplicit false

namespace PageRegions
namespace PageMemory

variable {m m' : PageMemory} {h k : Host} {l : Ledger}

/-! ## Starting and stopping -/

/-- Page memory that is started has a provider that maps files by names that the host sees. -/
theorem plain_of_mapNext {p : Provider} {sizes : List UInt64} {h' : Host}
    (hannounce : m.provider.announce sizes h = (.ok (), p, h'))
    (hmap : ({ m with provider := p } : PageMemory).mapNext h' = (.ok (), m', k)) : p.Plain := by
  unfold mapNext at hmap
  split at hmap
  · cases hmap
  · next hnext => exact Provider.plain_of_next hannounce hnext

/-- **Starting keeps the balance**, whether it fails or not. -/
theorem Balanced.start (hb : m.Balanced h l) : (m.start h).2.1.Balanced (m.start h).2.2 l := by
  by_cases hstarted : m.started = true
  · unfold PageMemory.start
    rw [if_pos hstarted]
    exact hb
  · have hstopped := hb.stopped (Bool.eq_false_iff.mpr hstarted)
    have hstarting := hstopped.start (h := h)
    rw [hb.eq_empty hstopped]
    generalize m.start h = out at hstarting
    cases hstarting with
    | failed fault m' k hstopped' hlater => exact hstopped'.balanced (hlater.sound hb.sound)
    | started p m' h' k text hannounced hready hchunks hbefore hmapped hlater =>
      have hplain := plain_of_mapNext hannounced hmapped
      have hplain' := mapNext_plain (m := { m with provider := p }) hplain h'
      rw [hmapped] at hplain'
      obtain ⟨hext, -⟩ := hready.layout.mapNext hready.hasUnused_eq_false hmapped
      have hbacked :=
        (hready.backed h').mapNext hready.layout (hbefore.sound hb.sound) hplain hmapped
      have hbehind := (Behind.of_stopped hready).congr hext.headers hext.handedOut
      have hrecycled : m'.recycled = [] := hext.recycled.trans hready.recycled
      exact {
        layout := { hext.layout with }
        backed := (hbacked.later (k.later_note _ _)).congr rfl rfl rfl
        sound := (hlater.trans (k.later_note _ _)).sound hb.sound
        plain := fun _ => hplain'
        stopped := nofun
        behind := by
          change PageMemory.Behind _ ([] ++ m'.recycled)
          rw [hrecycled]
          exact hbehind.congr (fun _ => rfl) rfl
        handedOut := fun page => by
          change page ∈ [] ↔ page ∈ [] ++ m'.recycled
          rw [hrecycled]
          rfl
        loaded := by
          change m'.loaded.toNat = 0
          rw [hext.loaded, hready.loaded]
          rfl
        marked := fun page block address hpage => by
          have hnone := (hext.headers page).trans (hready.header?_eq_none page)
          change m'.header? page = some (block, address) at hpage
          rw [hnone] at hpage
          cases hpage }

/-- After stopping no page is left, neither allocated nor recycled. -/
theorem Balanced.stop (hb : m.Balanced h l) :
    (m.stop h).2.1.Balanced (m.stop h).2.2 .empty := by
  unfold PageMemory.stop
  by_cases hstarted : m.started = true
  · rw [if_neg (by rw [hstarted]; exact Bool.false_ne_true)]
    obtain ⟨hmappings, hchunks, hlater⟩ := m.provider.shutdown_cases h
    generalize m.provider.shutdown h = out at hmappings hchunks hlater
    obtain ⟨result, p, k⟩ := out
    refine Stopped.balanced ⟨hb.layout.size, ?_, rfl, hmappings, rfl, rfl, rfl, rfl⟩
      ((hlater.trans (k.later_note _ _)).sound hb.sound)
    rw [hchunks]
    exact hb.layout.few
  · rw [Bool.not_eq_true] at hstarted
    rw [if_pos (by rw [hstarted]; rfl)]
    exact (hb.stopped hstarted).balanced hb.sound

end PageMemory

/-! ## Sessions -/

/-- What a caller can do with page memory. To ask for the address of a page changes nothing, and so is
not among it. -/
inductive MemoryCall where
  | start
  | stop
  | allocate
  | free (page : PageId)
  /-- Writes a byte of a page, if the page is allocated and the byte is one of its own. -/
  | write (page : PageId) (offset : Nat) (byte : UInt8)

/-- Page memory in use, with the host and the ledger of its callers. -/
structure Session where
  memory : PageMemory
  host : Host
  ledger : Ledger

namespace Session

/-- Carries a call out. What it does to the ledger is read from its result. Stopping clears the
ledger, so that of page memory that is started there are only pages from after the start. -/
def perform (s : Session) : MemoryCall → Session
  | .start =>
    let (_, memory, host) := s.memory.start s.host
    ⟨memory, host, s.ledger⟩
  | .stop =>
    let (_, memory, host) := s.memory.stop s.host
    ⟨memory, host, .empty⟩
  | .allocate =>
    match s.memory.allocate s.host with
    | (.ok page, memory, host) => ⟨memory, host, s.ledger.add page⟩
    | (.error _, memory, host) => ⟨memory, host, s.ledger⟩
  | .free page =>
    match s.memory.free page s.host with
    | (.ok (), memory, host) => ⟨memory, host, s.ledger.strike page⟩
    | (.error _, memory, host) => ⟨memory, host, s.ledger⟩
  | .write page offset byte => { s with host := s.memory.poke s.host page offset byte }

/-- The sessions that calls lead to, with other use of the host in between. -/
inductive Reached (o : RegionOptions) (pageSize : UInt32) (backing : Backing) : Session → Prop
  | fresh (host : Host) (sound : host.Sound) :
      Reached o pageSize backing ⟨PageMemory.fresh o pageSize backing, host, .empty⟩
  | call (c : MemoryCall) {s : Session} (before : Reached o pageSize backing s) :
      Reached o pageSize backing (s.perform c)
  | outside (host : Host) {s : Session} (before : Reached o pageSize backing s)
      (leaves : s.memory.Outside s.host host) : Reached o pageSize backing { s with host := host }

/-- What one call preserves. -/
theorem balanced_perform {s : Session} (hs : s.memory.Balanced s.host s.ledger) (c : MemoryCall) :
    (s.perform c).memory.Balanced (s.perform c).host (s.perform c).ledger := by
  cases c with
  | start => exact hs.start
  | stop => exact hs.stop
  | allocate =>
    have hout := hs.allocate
    simp only [perform]
    generalize s.memory.allocate s.host = out at hout
    cases hout with
    | handed page m k new balanced => exact balanced
    | failed fault m k balanced => exact balanced
  | free page =>
    have hout := hs.free page
    simp only [perform]
    generalize s.memory.free page s.host = out at hout
    cases hout with
    | returned m k allocated balanced => exact balanced
    | refused fault => exact hs
  | write page offset byte => exact hs.outside (hs.outside_poke page offset byte)

theorem Reached.balanced {o : RegionOptions} {pageSize : UInt32} {backing : Backing} {s : Session}
    (hsize : pageSize.toNat + 24 < 2 ^ 32) (hs : Reached o pageSize backing s) :
    s.memory.Balanced s.host s.ledger := by
  induction hs with
  | fresh host sound => exact (PageMemory.stopped_fresh o pageSize backing hsize).balanced sound
  | call c _ ih => exact balanced_perform ih c
  | outside host _ leaves ih => exact ih.outside leaves

/-- What page memory owes its callers: each page is accounted for, and is theirs alone. -/
structure Accounted (s : Session) : Prop where
  /-- No page is allocated twice, recycled twice, or both. -/
  nodup : (s.ledger.allocated ++ s.memory.recycled).Nodup
  handedOut : ∀ page,
    page ∈ s.ledger.handedOut ↔ page ∈ s.ledger.allocated ∨ page ∈ s.memory.recycled
  loaded : s.memory.loaded.toNat = s.ledger.allocated.length
  address : ∀ page, (s.memory.address? s.host page).isSome = true ↔ page ∈ s.ledger.allocated
  free : ∀ page, (s.memory.free page s.host).1 = .ok () ↔ page ∈ s.ledger.allocated
  /-- A page with its header lies inside the mapping of its segment. -/
  within : ∀ page block address, s.memory.address? s.host page = some (block, address) →
    ∃ mapping, s.memory.provider.mappings[page.segment.toNat]? = some mapping
      ∧ mapping.block? = some block ∧ PageMemory.headerSize.toNat ≤ address
      ∧ address - PageMemory.headerSize.toNat + s.memory.systemPageSize.toNat
        ≤ mapping.length.toNat
  /-- Different pages lie in different blocks or one behind the other. -/
  apart : ∀ page block address page' block' address', page ≠ page' →
    s.memory.address? s.host page = some (block, address) →
    s.memory.address? s.host page' = some (block', address') →
    block ≠ block' ∨ address + s.memory.systemPageSize.toNat ≤ address'
      ∨ address' + s.memory.systemPageSize.toNat ≤ address
  allocate_new : ∀ page m k, s.memory.allocate s.host = (.ok page, m, k) →
    page ∉ s.ledger.allocated
  /-- Memory is used up only if all chunks are mapped and each of their pages is allocated. -/
  allocate_full : ∀ name initial max loaded m k,
    s.memory.allocate s.host = (.error (.outOfMemory name initial max loaded), m, k) →
    m.segments.length = s.memory.provider.chunks.length
      ∧ s.ledger.allocated.length = (m.segments.map (·.pages)).sum
      ∧ ∀ page segment, m.segments[page.segment.toNat]? = some segment →
        page.index.toNat < segment.pages → page ∈ s.ledger.allocated
  /-- As long as a page is recycled there is one to be handed out. -/
  allocate_recycled : ∀ fault m k, s.memory.allocate s.host = (.error fault, m, k) →
    s.memory.started = true → s.memory.recycled = []
  allocate_failed : ∀ fault m k, s.memory.allocate s.host = (.error fault, m, k) →
    m.recycled = s.memory.recycled
      ∧ ∀ page, (m.address? k page).isSome = (s.memory.address? s.host page).isSome
  free_failed : ∀ page fault m k, s.memory.free page s.host = (.error fault, m, k) →
    m = s.memory ∧ k = s.host

theorem accounted_of_balanced {s : Session} (hs : s.memory.Balanced s.host s.ledger) :
    s.Accounted where
  nodup := hs.behind.nodup
  handedOut page := (hs.handedOut page).trans List.mem_append
  loaded := hs.loaded
  address := hs.address?_isSome
  free page := by
    have hout := hs.free page
    generalize s.memory.free page s.host = out at hout
    cases hout with
    | returned m k allocated => exact iff_of_true rfl allocated
    | refused fault free => exact iff_of_false nofun free
  within page block address haddress := by
    obtain ⟨start, hpage, -, rfl⟩ := PageMemory.address?_eq_some.mp haddress
    obtain ⟨mapping, hmapping, hblock, hlength⟩ := hs.backed.within hpage
    exact ⟨mapping, hmapping, hblock, Nat.le_add_left _ _, hlength⟩
  apart page block address page' block' address' hne haddress haddress' := by
    obtain ⟨start, hpage, -, rfl⟩ := PageMemory.address?_eq_some.mp haddress
    obtain ⟨start', hpage', -, rfl⟩ := PageMemory.address?_eq_some.mp haddress'
    rcases hs.backed.disjoint hne hpage hpage' with hblock | hapart
    · exact Or.inl hblock
    · exact Or.inr (by omega)
  allocate_new page m k hallocate := by
    have hout := hs.allocate
    rw [hallocate] at hout
    cases hout with
    | handed _ _ _ new => exact new
  allocate_full name initial max loaded m k hallocate := by
    have hout := hs.allocate
    rw [hallocate] at hout
    cases hout with
    | failed _ _ _ balanced _ chunks _ full =>
      obtain ⟨hused, hrecycled⟩ := full ⟨name, initial, max, loaded, rfl⟩
      exact ⟨hused.1.trans (congrArg List.length chunks), balanced.full hused hrecycled⟩
  allocate_recycled fault m k hallocate := by
    have hout := hs.allocate
    rw [hallocate] at hout
    cases hout with
    | failed _ _ _ _ _ _ lacking => exact lacking
  allocate_failed fault m k hallocate := by
    have hout := hs.allocate
    rw [hallocate] at hout
    cases hout with
    | failed _ _ _ balanced recycled =>
      refine ⟨recycled, fun page => ?_⟩
      rw [Bool.eq_iff_iff, balanced.address?_isSome, hs.address?_isSome]
  free_failed page fault m k hfree := by
    have hout := hs.free page
    rw [hfree] at hout
    cases hout with
    | refused => exact ⟨rfl, rfl⟩

/-- **Every page is accounted for at any time of the life of page memory**, unless the size of a page
with its header wraps. -/
theorem reached_accounted {o : RegionOptions} {pageSize : UInt32} {backing : Backing} {s : Session}
    (hsize : pageSize.toNat + 24 < 2 ^ 32) (hs : Reached o pageSize backing s) : s.Accounted :=
  accounted_of_balanced (hs.balanced hsize)

theorem perform_free {s : Session} {page : PageId}
    (hok : (s.memory.free page s.host).1 = .ok ()) :
    (s.perform (.free page)).ledger = s.ledger.strike page
      ∧ (s.perform (.free page)).memory
        = { s.memory with
            recycled := page :: s.memory.recycled
            loaded := s.memory.loaded - 1 } := by
  unfold perform PageMemory.free
  unfold PageMemory.free at hok
  cases haddress : s.memory.address? s.host page with
  | none =>
    rw [haddress] at hok
    cases hok
  | some out => simp only [haddress, and_self]

/-- Two pages of a segment of eight, of which the first was given back. -/
theorem reached_accounted_two_pages :
    ∃ s : Session, s.Accounted ∧ s.ledger.allocated = [⟨0, 1⟩] ∧ s.memory.recycled = [⟨0, 0⟩]
      ∧ s.memory.loaded = 1 := by
  let o : RegionOptions := ⟨"r", 1000, 1000, .disabled, .nan, 0, "", false, 0, 0⟩
  have hsound : (Host.fresh FileTree.scratch fun _ => 0).Sound := by
    have hnone : ∀ path block, ¬ FileTree.scratch.Shows path block := by
      rintro path block ⟨size, hmem⟩
      simp [FileTree.scratch] at hmem
    exact ⟨fun path block h => absurd h (hnone path block),
      fun path _ block h => absurd h (hnone path block)⟩
  have hfresh : Reached o 100 .anonymous _ := .fresh _ hsound
  have hwritten := (((hfresh.call .start).call .allocate).call .allocate).call
    (.write ⟨0, 0⟩ 99 255)
  have hallocated := (reached_accounted (by decide) hwritten).free ⟨0, 0⟩
  obtain ⟨hledger, hmemory⟩ := perform_free (hallocated.mpr (by decide +kernel))
  refine ⟨_, reached_accounted (by decide) (hwritten.call (.free ⟨0, 0⟩)), ?_, ?_, ?_⟩
  · rw [hledger]
    decide +kernel
  · rw [hmemory]
    decide +kernel
  · rw [hmemory]
    decide +kernel

end Session
end PageRegions
