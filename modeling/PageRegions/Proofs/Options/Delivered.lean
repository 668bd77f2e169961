import PageRegions.Options.Reader

/-!
# What a caller is left with

A caller who hands over a target gets it back as it was, or what was read in its place (`deliver`).
The readers do that in different ways: a table is read into a copy, a list behind what was found of
it before. Both come to the same, and that is shown once for each loop (`readInto_eq`,
`listBehind_eq`); what is known of a reading without a target goes for the one with it.
-/

set_option autoImplicit false

namespace PageRegions

/-- The record that was read, or the target and the fault. -/
def deliver {σ : Type} (target : σ) : Except Fault σ → Status × σ
  | .ok r => (.ok, r)
  | .error fault => (.failed fault, target)

section

variable {σ : Type} {target r : σ} {result : Except Fault σ} {fault : Fault}

theorem deliver_eq_ok : deliver target result = (.ok, r) ↔ result = .ok r := by
  cases result with
  | ok s =>
    rw [deliver, Prod.mk.injEq, Except.ok.injEq]
    exact and_iff_right rfl
  | error fault => exact ⟨nofun, nofun⟩

theorem deliver_eq_failed :
    deliver target result = (.failed fault, r) ↔ result = .error fault ∧ r = target := by
  cases result with
  | ok s => exact ⟨nofun, fun h => nomatch h.1⟩
  | error cause =>
    rw [deliver, Prod.mk.injEq, Status.failed.injEq, Except.error.injEq]
    exact and_congr_right fun _ => eq_comm

/-- **A table read into a copy is delivered.** -/
theorem readInto_eq (set : σ → String → String → Except Fault σ) (target copy : σ)
    (table : List (String × String)) :
    readInto set target copy table
      = deliver target (table.foldlM (fun o e => set o e.1 e.2) copy) := by
  induction table generalizing copy with
  | nil => rfl
  | cons e more ih =>
    rw [List.foldlM_cons, readInto]
    cases set copy e.1 e.2 with
    | error fault => rfl
    | ok changed => exact ih changed

end

namespace RegionOptions

theorem tableInto_eq (base target : RegionOptions) (table : List (String × String)) :
    base.tableInto target table = deliver target (base.ofTable table) :=
  readInto_eq set target base table

theorem textInto_eq (base target : RegionOptions) (text : List Char) :
    base.textInto target text = deliver target (base.ofText text) := by
  unfold textInto ofText
  rcases Token.pairsOf text with ⟨pairs, _ | fault⟩
  · exact base.tableInto_eq target _
  · rfl

/-- **A list is read token by token**, and empty tokens are skipped. -/
theorem listOfText_next (base : RegionOptions) (s : List Char) :
    base.listOfText s = (Token.next ':' s).bind fun scan =>
      (if scan.token = [] then .ok [] else (base.ofText scan.token).map ([·])).bind fun read =>
        match scan.rest? with
        | none => .ok read
        | some rest => (base.listOfText rest).map (read ++ ·) := by
  cases s with
  | nil =>
    rw [listOfText]
    rfl
  | cons c t =>
    rw [listOfText]
    split
    · next fault hnext =>
      conv => rhs; rw [hnext]
      rfl
    · next token rest? hnext =>
      conv => rhs; rw [hnext]
      simp only [Except.bind]
      cases (if token = [] then Except.ok [] else (base.ofText token).map ([·])) with
      | error fault => rfl
      | ok read => cases rest? <;> rfl

/-- **A list is delivered** behind what was found before. The induction is on the tokens that are
left. -/
theorem listBehind_eq (base : RegionOptions) (target found : List RegionOptions)
    (text : List Char) :
    base.listBehind target found text
      = deliver target ((base.listOfText text).map (found ++ ·)) := by
  rw [listOfText_next]
  fun_induction base.listBehind target found text with
  | case1 found => exact congrArg (Prod.mk Status.ok) found.append_nil.symm
  | case2 found c t fault hnext =>
    rw [hnext]
    rfl
  | case3 found c t token rest? hnext fault hread =>
    rw [hnext]
    simp only [Except.bind]
    rw [← dite_eq_ite, hread]
    rfl
  | case4 found c t token read hread hnext =>
    rw [hnext]
    simp only [Except.bind]
    rw [← dite_eq_ite, hread]
    rfl
  | case5 found c t token read hread rest _ hnext ih =>
    rw [hnext]
    simp only [Except.bind]
    rw [← dite_eq_ite, hread, ih, ← listOfText_next]
    cases base.listOfText rest with
    | error fault => rfl
    | ok others => exact congrArg (Prod.mk Status.ok) (List.append_assoc found read others)

theorem listInto_eq (base : RegionOptions) (target : List RegionOptions) (text : List Char) :
    base.listInto target text = deliver target (base.listOfText text) := by
  unfold listInto
  rw [listBehind_eq]
  cases base.listOfText text <;> rfl

end RegionOptions

namespace MemoryOptions

theorem tableInto_eq (fresh : RegionOptions) (base target : MemoryOptions)
    (table : List (String × String)) :
    base.tableInto fresh target table = deliver target (base.ofTable fresh table) :=
  readInto_eq (set fresh) target base table

theorem textInto_eq (fresh : RegionOptions) (base target : MemoryOptions) (text : List Char) :
    base.textInto fresh target text = deliver target (base.ofText fresh text) := by
  unfold textInto ofText
  rcases Token.pairsOf text with ⟨pairs, _ | fault⟩
  · exact base.tableInto_eq fresh target _
  · rfl

end MemoryOptions

end PageRegions
