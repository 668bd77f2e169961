import PageRegions.Proofs.Options.Delivered
import PageRegions.Proofs.Options.Keyed
import PageRegions.Proofs.Options.Written

/-!
# The order in which entries are visited

A table of settings has no order of its own, so reading one may visit its entries in any (`Visit`).
That goes for the tables of the regions that a table lists, too. Reading as it is defined visits
entries in the order in which they came; here it is once more with the order left open
(`MemoryOptions.tableIntoIn`), and nothing but the fault that is reported depends on it
(`ofTable_visits`). In particular the caller's record does not, even if there is a fault.
-/

set_option autoImplicit false

namespace PageRegions

/-! ## Results up to the fault -/

/-- Two results are the same, or both are faults. -/
def Agree {α : Type} (a b : Except Fault α) : Prop := a.toOption = b.toOption

namespace Agree

variable {α β : Type} {a b c : Except Fault α}

theorem refl (a : Except Fault α) : Agree a a := rfl

theorem symm (h : Agree a b) : Agree b a := Eq.symm h

theorem trans (h : Agree a b) (h' : Agree b c) : Agree a c := Eq.trans h h'

theorem of_error (fault fault' : Fault) : Agree (α := α) (.error fault) (.error fault') := rfl

theorem map (h : Agree a b) (f : α → β) : Agree (a.map f) (b.map f) := by
  unfold Agree at h ⊢
  cases a <;> cases b <;> cases h <;> rfl

theorem bind (h : Agree a b) {f g : α → Except Fault β} (hfg : ∀ x, Agree (f x) (g x)) :
    Agree (a.bind f) (b.bind g) := by
  unfold Agree at h
  cases a <;> cases b <;> cases h
  · exact of_error _ _
  · exact hfg _

theorem ok (h : Agree a b) {x : α} (ha : a = .ok x) : b = .ok x := by
  subst ha
  cases b <;> cases h
  rfl

theorem error (h : Agree a b) {fault : Fault} (ha : a = .error fault) :
    ∃ fault', b = .error fault' := by
  subst ha
  cases b with
  | error fault' => exact ⟨fault', rfl⟩
  | ok => cases h

end Agree

namespace Keyed

variable {σ : Type} {K L : Keyed σ} {table other : List (String × String)}

/-- **In whatever order**, a table is read to the same record or refused. -/
theorem agree_of_perm (hperm : table.Perm other) (hkeys : (table.map Prod.fst).Nodup) (base : σ) :
    Agree (K.ofTable base table) (K.ofTable base other) := by
  by_cases hread : K.Readable table
  · rw [K.ofTable_of_readable hread, K.ofTable_of_readable (hread.perm hperm),
      K.foldl_step_perm hperm hkeys]
    exact .refl _
  · obtain ⟨-, -, fault, -, hleft⟩ := K.ofTable_of_not_readable hread base
    obtain ⟨-, -, fault', -, hright⟩ :=
      K.ofTable_of_not_readable (fun h => hread (h.perm hperm.symm)) base
    rw [hleft, hright]
    exact .of_error _ _

/-- So is one whose entries are read in another way that agrees. -/
theorem agree_of_read (hput : K.put = L.put)
    (hread : ∀ key text, Agree (K.read key text) (L.read key text)) (base : σ) :
    Agree (K.ofTable base table) (L.ofTable base table) := by
  induction table generalizing base with
  | nil => exact .refl _
  | cons e more ih =>
    rw [ofTable_cons, ofTable_cons, hput]
    exact (hread e.1 e.2).bind fun v => ih _

/-- A result that agrees with reading a table is what its entries leave behind. -/
theorem foldl_of_agree {out : Except Fault σ} {base r : σ}
    (hagree : Agree out (K.ofTable base table)) (hok : out = .ok r) :
    K.Readable table ∧ table.foldl K.step base = r := by
  have hr := hagree.ok hok
  have hread := K.readable_of_ok hr
  rw [K.ofTable_of_readable hread] at hr
  exact ⟨hread, Except.ok.inj hr⟩

end Keyed

/-! ## Visiting -/

/-- An order in which the entries of each table are visited. -/
structure Visit where
  order : List (String × String) → List (String × String)
  perm : ∀ table, (order table).Perm table

namespace Visit

/-- The order in which they came. -/
def asListed : Visit := ⟨id, fun _ => .refl _⟩

def backwards : Visit := ⟨List.reverse, List.reverse_perm⟩

theorem keys (visit : Visit) {table : List (String × String)}
    (hkeys : (table.map Prod.fst).Nodup) : ((visit.order table).map Prod.fst).Nodup :=
  ((visit.perm table).map Prod.fst).nodup_iff.mpr hkeys

end Visit

namespace RegionOptions

/-- Reads an option text whose entries are visited in some order. -/
def ofTextIn (visit : Visit) (base : RegionOptions) (text : List Char) :
    Except Fault RegionOptions :=
  match Token.pairsOf text with
  | ⟨_, some fault⟩ => .error fault
  | ⟨pairs, none⟩ => base.ofTable (visit.order (Token.tableOf pairs))

/-- Reads a list of regions, each in the way that is given. -/
def listBy (read : List Char → Except Fault RegionOptions) (text : List Char) :
    Except Fault (List RegionOptions) :=
  match text with
  | [] => .ok []
  | c :: t =>
    match _h : Token.next ':' (c :: t) with
    | .error fault => .error fault
    | .ok ⟨token, rest?⟩ =>
      match (if token = [] then .ok [] else (read token).map ([·])) with
      | .error fault => .error fault
      | .ok found =>
        match rest? with
        | none => .ok found
        | some rest => (listBy read rest).map (found ++ ·)
  termination_by text.length
  decreasing_by
    exact Token.next_rest_length _h

/-- The next region of a list, and then the others. -/
theorem listBy_cons (read : List Char → Except Fault RegionOptions) (c : Char) (t : List Char) :
    listBy read (c :: t) = (Token.next ':' (c :: t)).bind fun scan =>
      (if scan.token = [] then .ok [] else (read scan.token).map ([·])).bind fun found =>
        match scan.rest? with
        | none => .ok found
        | some rest => (listBy read rest).map (found ++ ·) := by
  rw [listBy]
  split
  · next fault hnext =>
    rw [hnext]
    rfl
  · next token rest? hnext =>
    conv_rhs => rw [hnext]
    simp only [Except.bind]
    split
    · next hfound => rw [hfound]
    · next found hfound =>
      rw [hfound]
      split <;> rfl

/-- The induction is on the length of the text. -/
theorem listOfText_eq (base : RegionOptions) (text : List Char) :
    base.listOfText text = listBy base.ofText text := by
  match text with
  | [] => rw [listOfText, listBy]
  | c :: t =>
    rw [listOfText_next, listBy_cons]
    rcases hnext : Token.next ':' (c :: t) with fault | ⟨token, _ | rest⟩
    · rfl
    · rfl
    · simp only [Except.bind]
      rw [listOfText_eq base rest]
  termination_by text.length
  decreasing_by
    exact Token.next_rest_length hnext

theorem agree_ofTextIn (visit : Visit) (base : RegionOptions) (text : List Char) :
    Agree (base.ofTextIn visit text) (base.ofText text) := by
  unfold ofTextIn ofText
  rcases Token.pairsOf text with ⟨pairs, _ | fault⟩
  · simp only
    rw [ofTable_eq base, ofTable_eq base]
    exact Keyed.agree_of_perm (visit.perm _)
      (visit.keys (Token.binds_tableOf pairs).nodup) base
  · exact .refl _

/-- Regions that are read alike make lists that are read alike. The induction is on the length of
the text. -/
theorem agree_listBy {read read' : List Char → Except Fault RegionOptions}
    (hread : ∀ token, Agree (read token) (read' token)) (text : List Char) :
    Agree (listBy read text) (listBy read' text) := by
  match text with
  | [] =>
    rw [listBy, listBy]
    exact .refl _
  | c :: t =>
    rw [listBy_cons, listBy_cons]
    rcases hnext : Token.next ':' (c :: t) with fault | ⟨token, rest?⟩
    · exact .refl _
    · refine Agree.bind (a := if token = [] then .ok [] else (read token).map ([·]))
        (b := if token = [] then .ok [] else (read' token).map ([·])) ?_ fun found => ?_
      · split
        · exact .refl _
        · exact (hread token).map _
      · cases rest? with
        | none => exact .refl _
        | some rest => exact (agree_listBy hread rest).map _
  termination_by text.length
  decreasing_by
    exact Token.next_rest_length hnext

end RegionOptions

namespace MemoryOptions

/-- Reads a table whose entries are visited in some order, and so are those of its regions. -/
def ofTableIn (visit : Visit) (fresh : RegionOptions) (base : MemoryOptions)
    (table : List (String × String)) : Except Fault MemoryOptions :=
  (keyed (RegionOptions.listBy (fresh.ofTextIn visit)) fresh).ofTable base (visit.order table)

/-- Puts what is read so in place of a target. -/
def tableIntoIn (visit : Visit) (fresh : RegionOptions) (base target : MemoryOptions)
    (table : List (String × String)) : Status × MemoryOptions :=
  let K := keyed (RegionOptions.listBy (fresh.ofTextIn visit)) fresh
  readInto (fun o key text => (K.read key text).map (K.put o key)) target base (visit.order table)

theorem tableIntoIn_eq (visit : Visit) (fresh : RegionOptions) (base target : MemoryOptions)
    (table : List (String × String)) :
    base.tableIntoIn visit fresh target table
      = deliver target (base.ofTableIn visit fresh table) :=
  readInto_eq _ target base (visit.order table)

theorem ofTableIn_asListed (fresh : RegionOptions) (base : MemoryOptions)
    (table : List (String × String)) :
    base.ofTableIn .asListed fresh table = base.ofTable fresh table := by
  rw [ofTable_eq]
  unfold ofTableIn
  rw [funext (RegionOptions.listOfText_eq fresh)]
  rfl

theorem agree_read {lists lists' : List Char → Except Fault (List RegionOptions)}
    (hlists : ∀ text, Agree (lists text) (lists' text)) (fresh : RegionOptions)
    (key text : String) : Agree (read lists fresh key text) (read lists' fresh key text) := by
  unfold read
  split
  · exact .refl _
  · exact (hlists text.toList).map _
  · exact .refl _

theorem agree_ofTableIn (visit : Visit) (fresh : RegionOptions) (base : MemoryOptions)
    {table : List (String × String)} (hkeys : (table.map Prod.fst).Nodup) :
    Agree (base.ofTableIn visit fresh table) (base.ofTable fresh table) := by
  rw [ofTable_eq]
  refine (Keyed.agree_of_read (K := keyed (RegionOptions.listBy (fresh.ofTextIn visit)) fresh)
    (L := keyed fresh.listOfText fresh) rfl ?_ base).trans
      (Keyed.agree_of_perm (visit.perm table) (visit.keys hkeys) base)
  intro key text
  refine agree_read (fun text => ?_) fresh key text
  rw [RegionOptions.listOfText_eq]
  exact RegionOptions.agree_listBy (RegionOptions.agree_ofTextIn visit fresh) text

end MemoryOptions

/-! ## What does not depend on the order -/

/-- How tables are read in whatever order, and put in place of a target. What a text says for a key
is given by `read`. -/
structure OrderFree {σ : Type} (values : σ → List (String × SettingValue))
    (read : String → String → Except Fault SettingValue)
    (into : Visit → σ → σ → List (String × String) → Status × σ) : Prop where
  /-- Two visits lead to the same record, or both fail and leave the target as it was. -/
  same : ∀ (visit visit' : Visit) base target {table}, (table.map Prod.fst).Nodup →
    (∃ r, into visit base target table = (.ok, r) ∧ into visit' base target table = (.ok, r))
      ∨ ((∃ fault, into visit base target table = (.failed fault, target))
        ∧ ∃ fault, into visit' base target table = (.failed fault, target))
  /-- A setting that is not named is that of the base. -/
  others : ∀ {visit base target table r}, (table.map Prod.fst).Nodup →
    into visit base target table = (.ok, r) →
    ∀ key ∉ table.map Prod.fst, (values r).lookup key = (values base).lookup key
  /-- A setting that is named is what its own text says. -/
  named : ∀ {visit base target table r}, (table.map Prod.fst).Nodup →
    into visit base target table = (.ok, r) →
    ∀ {key text}, (key, text) ∈ table →
      ∃ v, read key text = .ok v ∧ (values r).lookup key = some v

theorem Keyed.orderFree {σ : Type} (K : Keyed σ)
    {parse : Visit → σ → List (String × String) → Except Fault σ}
    {into : Visit → σ → σ → List (String × String) → Status × σ}
    (hinto : ∀ visit base target table,
      into visit base target table = deliver target (parse visit base table))
    (hparse : ∀ (visit : Visit) base {table}, (table.map Prod.fst).Nodup →
      Agree (parse visit base table) (K.ofTable base table)) :
    OrderFree K.values K.read into where
  same visit visit' base target table hkeys := by
    have hagree := (hparse visit base hkeys).trans (hparse visit' base hkeys).symm
    rw [hinto, hinto]
    rcases hout : parse visit base table with fault | r
    · obtain ⟨fault', hfault'⟩ := hagree.error hout
      rw [hfault']
      exact Or.inr ⟨⟨fault, rfl⟩, ⟨fault', rfl⟩⟩
    · rw [hagree.ok hout]
      exact Or.inl ⟨r, rfl, rfl⟩
  others {visit base target table r} hkeys hok key hkey := by
    rw [hinto, deliver_eq_ok] at hok
    obtain ⟨hread, rfl⟩ := Keyed.foldl_of_agree (hparse visit base hkeys) hok
    exact K.lookup_foldl_step hread hkeys base hkey
  named {visit base target table r} hkeys hok key text hmem := by
    rw [hinto, deliver_eq_ok] at hok
    obtain ⟨hread, rfl⟩ := Keyed.foldl_of_agree (hparse visit base hkeys) hok
    exact K.lookup_foldl_step_of_mem hread hkeys base hmem

/-- **Reading does not depend on the order in which entries are visited**, neither those of the
table nor those of the regions it lists, and leaves nothing half done. -/
theorem ofTable_visits (fresh : RegionOptions) :
    OrderFree RegionOptions.values (RegionOptions.read fresh)
        (fun visit base target table => base.tableInto target (visit.order table))
      ∧ OrderFree MemoryOptions.values (MemoryOptions.read fresh.listOfText fresh)
        (fun visit base target table => base.tableIntoIn visit fresh target table)
      ∧ (∀ (base target : MemoryOptions) table,
        base.tableIntoIn .asListed fresh target table = base.tableInto fresh target table)
      -- Without a target there is the same record, or the same fault.
      ∧ (∀ (base target : RegionOptions) table,
        base.tableInto target table = deliver target (base.ofTable table))
      ∧ ∀ (base target : MemoryOptions) table,
        base.tableInto fresh target table = deliver target (base.ofTable fresh table) := by
  refine ⟨(RegionOptions.keyed fresh).orderFree
      (fun visit base target table => base.tableInto_eq target (visit.order table))
      fun visit base table hkeys => ?_,
    (MemoryOptions.keyed fresh.listOfText fresh).orderFree
      (fun visit base target table => base.tableIntoIn_eq visit fresh target table)
      fun visit base table hkeys => ?_,
    fun base target table => ?_,
    fun base target table => base.tableInto_eq target table,
    fun base target table => base.tableInto_eq fresh target table⟩
  · rw [RegionOptions.ofTable_eq fresh]
    exact Keyed.agree_of_perm (visit.perm table) (visit.keys hkeys) base
  · rw [← MemoryOptions.ofTable_eq]
    exact MemoryOptions.agree_ofTableIn visit fresh base hkeys
  · rw [MemoryOptions.tableIntoIn_eq, MemoryOptions.ofTableIn_asListed,
      ← MemoryOptions.tableInto_eq]

/-- A registry with pages of 8 KiB and a working directory, whichever of the two is said first. -/
theorem ofTable_visits_two_settings : ∃ (fresh : RegionOptions) (target r : MemoryOptions),
    MemoryOptions.usual.tableIntoIn .backwards fresh target
        [("page_size", "8K"), ("work_dir", "d")] = (.ok, r)
      ∧ r.values.lookup "consistent_id" = MemoryOptions.usual.values.lookup "consistent_id"
      ∧ r = { MemoryOptions.usual with pageSize := 8192, workDir := "d" } := by
  let fresh := RegionOptions.usual ⟨0, 0⟩ ""
  let target := MemoryOptions.usual
  let table := [("page_size", "8K"), ("work_dir", "d")]
  obtain ⟨-, hfree, hlisted, -⟩ := ofTable_visits fresh
  have hkeys : (table.map Prod.fst).Nodup := by decide
  have hread : MemoryOptions.usual.tableIntoIn .asListed fresh target table
      = (.ok, { MemoryOptions.usual with pageSize := 8192, workDir := "d" }) := by
    rw [hlisted]
    rfl
  rcases hfree.same .asListed .backwards MemoryOptions.usual target hkeys with
    ⟨r, hr, hback⟩ | ⟨⟨fault, hfault⟩, -⟩
  · refine ⟨fresh, target, r, hback, hfree.others hkeys hr _ (by decide), ?_⟩
    rw [hread] at hr
    exact (congrArg Prod.snd hr).symm
  · rw [hread] at hfault
    cases hfault

end PageRegions
