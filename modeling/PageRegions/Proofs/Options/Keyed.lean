import Mathlib.Data.List.Nodup
import PageRegions.Options.Reader

/-!
# Settings as keys with values

Settings of a region and of a registry are read in the same way, key by key from a table. What is
used of either is put together here (`Keyed`): what a text says for a key, which hangs on neither
the record nor other keys, and how a record is changed by that. It changes one setting, so changes
of different settings commute.

From this follows what a whole table does (`ofTable_of_readable`, `ofTable_of_not_readable`):
whether it is read is decided entry by entry, and so is each setting of the record that comes out.

The order of the entries is that in which a caller visits them. It decides nothing but which of
several faults is reported.
-/

set_option autoImplicit false

namespace PageRegions

/-- A kind of records that are read key by key. -/
structure Keyed (σ : Type) where
  /-- The settings of a record, in a fixed order. -/
  values : σ → List (String × SettingValue)
  /-- What a text says for a key. -/
  read : String → String → Except Fault SettingValue
  /-- Replaces the setting of a key. -/
  put : σ → String → SettingValue → σ
  keys_nodup : ∀ o, ((values o).map Prod.fst).Nodup
  /-- A key that says something has its place among the settings, where its value goes. -/
  exists_place : ∀ {key text : String} {v : SettingValue}, read key text = .ok v →
    ∀ o, ∃ i, ((values o).map Prod.fst)[i]? = some key
      ∧ values (put o key v) = (values o).set i (key, v)
  put_comm : ∀ {key key' : String}, key ≠ key' → ∀ o v v',
    put (put o key v) key' v' = put (put o key' v') key v

namespace Keyed

variable {σ : Type} (K : Keyed σ) {base r : σ} {table other : List (String × String)}

/-- Reads a table into a record, entry by entry until the first fault. -/
def ofTable (base : σ) (table : List (String × String)) : Except Fault σ :=
  table.foldlM (fun o e => (K.read e.1 e.2).map (K.put o e.1)) base

/-- Whether each entry can be read. -/
def Readable (table : List (String × String)) : Prop :=
  ∀ e ∈ table, ∃ v, K.read e.1 e.2 = .ok v

/-- The record after an entry, unchanged if that cannot be read. -/
def step (o : σ) (e : String × String) : σ :=
  match K.read e.1 e.2 with
  | .ok v => K.put o e.1 v
  | .error _ => o

/-- The setting that a table leaves behind, of those that were there. -/
def revised (table : List (String × String)) (e : String × SettingValue) : SettingValue :=
  match table.lookup e.1 with
  | none => e.2
  | some text =>
    match K.read e.1 text with
    | .ok v => v
    | .error _ => e.2

/-! ## One setting -/

theorem set_eq_map {l : List (String × SettingValue)} (hkeys : (l.map Prod.fst).Nodup) {i : Nat}
    {key : String} (hi : (l.map Prod.fst)[i]? = some key) (v : SettingValue) :
    l.set i (key, v) = l.map fun e => (e.1, if e.1 = key then v else e.2) := by
  induction l generalizing i with
  | nil => rfl
  | cons e more ih =>
    rw [List.map_cons, List.nodup_cons] at hkeys
    cases i with
    | zero =>
      cases hi
      have hrest : more.map (fun x => (x.1, if x.1 = e.1 then v else x.2)) = more := by
        refine (List.map_congr_left fun x hx => ?_).trans (List.map_id _)
        have hne : x.1 ≠ e.1 := fun he => hkeys.1 (he ▸ List.mem_map_of_mem hx)
        rw [if_neg hne]
        rfl
      rw [List.set_cons_zero, List.map_cons, if_pos rfl, hrest]
    | succ i =>
      rw [List.map_cons, List.getElem?_cons_succ] at hi
      have hne : e.1 ≠ key := fun he => hkeys.1 (he ▸ List.mem_of_getElem? hi)
      rw [List.set_cons_succ, List.map_cons, if_neg hne, ih hkeys.2 hi]

theorem mem_values {key text : String} {v : SettingValue} (hv : K.read key text = .ok v) (o : σ) :
    key ∈ (K.values o).map Prod.fst := by
  obtain ⟨i, hi, -⟩ := K.exists_place hv o
  exact List.mem_of_getElem? hi

/-- That setting is replaced, and no other. -/
theorem values_put {key text : String} {v : SettingValue} (hv : K.read key text = .ok v) (o : σ) :
    K.values (K.put o key v)
      = (K.values o).map fun e => (e.1, if e.1 = key then v else e.2) := by
  obtain ⟨i, hi, hput⟩ := K.exists_place hv o
  rw [hput, set_eq_map (K.keys_nodup o) hi]

/-! ## Whether a table is read -/

theorem ofTable_cons (base : σ) (e : String × String) (more : List (String × String)) :
    K.ofTable base (e :: more)
      = (K.read e.1 e.2).bind fun v => K.ofTable (K.put base e.1 v) more := by
  unfold ofTable
  rw [List.foldlM_cons]
  cases K.read e.1 e.2 <;> rfl

/-- **A table that can be read is read**, entry by entry. -/
theorem ofTable_of_readable (hread : K.Readable table) (base : σ) :
    K.ofTable base table = .ok (table.foldl K.step base) := by
  induction table generalizing base with
  | nil => rfl
  | cons e more ih =>
    obtain ⟨v, hv⟩ := hread e List.mem_cons_self
    have hstep : K.step base e = K.put base e.1 v := by
      unfold step
      rw [hv]
    rw [ofTable_cons, hv, List.foldl_cons, hstep]
    exact ih (fun x hx => hread x (List.mem_cons_of_mem _ hx)) _

/-- **Otherwise it is refused**, with the fault of one of its entries. -/
theorem ofTable_of_not_readable (hread : ¬ K.Readable table) (base : σ) :
    ∃ e ∈ table, ∃ fault, K.read e.1 e.2 = .error fault ∧ K.ofTable base table = .error fault := by
  induction table generalizing base with
  | nil => exact absurd (fun e he => nomatch he) hread
  | cons e more ih =>
    rw [ofTable_cons]
    rcases hv : K.read e.1 e.2 with fault | v
    · exact ⟨e, List.mem_cons_self, fault, hv, rfl⟩
    · have hmore : ¬ K.Readable more := fun hmore =>
        hread fun x hx => by
          rcases List.mem_cons.mp hx with rfl | hx
          · exact ⟨v, hv⟩
          · exact hmore x hx
      obtain ⟨x, hx, fault, hfault, hout⟩ := ih hmore (K.put base e.1 v)
      exact ⟨x, List.mem_cons_of_mem _ hx, fault, hfault, hout⟩

theorem readable_of_ok (hok : K.ofTable base table = .ok r) : K.Readable table := by
  by_contra hread
  obtain ⟨e, -, fault, -, herror⟩ := K.ofTable_of_not_readable hread base
  rw [herror] at hok
  cases hok

/-- A fault of a table is that of one of its entries. -/
theorem exists_of_error {fault : Fault} (herror : K.ofTable base table = .error fault) :
    ∃ e ∈ table, K.read e.1 e.2 = .error fault := by
  by_cases hread : K.Readable table
  · rw [K.ofTable_of_readable hread] at herror
    cases herror
  · obtain ⟨e, he, fault', hfault, herror'⟩ := K.ofTable_of_not_readable hread base
    rw [herror'] at herror
    cases herror
    exact ⟨e, he, hfault⟩

theorem Readable.perm {K : Keyed σ} (hread : K.Readable table) (hperm : table.Perm other) :
    K.Readable other :=
  fun e he => hread e (hperm.mem_iff.mpr he)

/-! ## What it leaves behind -/

theorem step_comm {e e' : String × String} (hne : e.1 ≠ e'.1) (o : σ) :
    K.step (K.step o e) e' = K.step (K.step o e') e := by
  unfold step
  cases K.read e.1 e.2 with
  | error => rfl
  | ok v =>
    cases K.read e'.1 e'.2 with
    | error => rfl
    | ok v' => exact K.put_comm hne o v v'

/-- **The order of entries does not matter** if their keys are different. -/
theorem foldl_step_perm (hperm : table.Perm other) (hkeys : (table.map Prod.fst).Nodup) (base : σ) :
    table.foldl K.step base = other.foldl K.step base := by
  refine hperm.foldl_eq' (fun e he e' he' o => ?_) base
  by_cases hsame : e = e'
  · rw [hsame]
  · exact K.step_comm (fun hkey => hsame (List.inj_on_of_nodup_map hkeys he' he hkey.symm).symm) o

theorem lookup_of_not_mem {key : String} (hkey : key ∉ table.map Prod.fst) :
    table.lookup key = none := by
  rw [List.lookup_eq_none_iff]
  intro x hx
  rw [bne_iff_ne]
  rintro rfl
  exact hkey (List.mem_map_of_mem hx)

theorem revised_cons (key text : String) {v : SettingValue} {more : List (String × String)}
    (hv : K.read key text = .ok v) (hkey : key ∉ more.map Prod.fst) (e : String × SettingValue) :
    K.revised more (e.1, if e.1 = key then v else e.2) = K.revised ((key, text) :: more) e := by
  unfold revised
  by_cases he : e.1 = key
  · simp only [he, if_true, lookup_of_not_mem hkey, List.lookup_cons, beq_self_eq_true, hv]
  · simp only [if_neg he, List.lookup_cons, beq_false_of_ne he]

theorem lookup_map {α β : Type} (f : String × α → β) (l : List (String × α)) (key : String) :
    (l.map fun e => (e.1, f e)).lookup key = (l.lookup key).map fun v => f (key, v) := by
  induction l with
  | nil => rfl
  | cons e more ih =>
    rw [List.map_cons, List.lookup_cons, List.lookup_cons, ih]
    by_cases hkey : key = e.1
    · simp only [hkey, beq_self_eq_true, Option.map_some]
    · simp only [beq_false_of_ne hkey]

theorem lookup_of_mem {key text : String} (hkeys : (table.map Prod.fst).Nodup)
    (hmem : (key, text) ∈ table) : table.lookup key = some text := by
  induction table with
  | nil => cases hmem
  | cons e more ih =>
    rw [List.map_cons, List.nodup_cons] at hkeys
    rcases List.mem_cons.mp hmem with rfl | hmem
    · rw [List.lookup_cons, beq_self_eq_true]
    · have hne : key ≠ e.1 := fun he => hkeys.1 (he ▸ List.mem_map_of_mem hmem)
      rw [List.lookup_cons, beq_false_of_ne hne]
      exact ih hkeys.2 hmem

/-- **Each setting that comes out** is the one that was there, or what its own entry says. -/
theorem values_foldl_step (hread : K.Readable table) (hkeys : (table.map Prod.fst).Nodup)
    (base : σ) :
    K.values (table.foldl K.step base)
      = (K.values base).map fun e => (e.1, K.revised table e) := by
  induction table generalizing base with
  | nil => exact (List.map_id _).symm
  | cons e more ih =>
    obtain ⟨v, hv⟩ := hread e List.mem_cons_self
    rw [List.map_cons, List.nodup_cons] at hkeys
    have hstep : K.step base e = K.put base e.1 v := by
      unfold step
      rw [hv]
    rw [List.foldl_cons, ih (fun x hx => hread x (List.mem_cons_of_mem _ hx)) hkeys.2, hstep,
      K.values_put hv, List.map_map]
    exact List.map_congr_left fun x _ =>
      Prod.ext rfl (K.revised_cons e.1 e.2 hv hkeys.1 x)

/-- A setting that the table does not name stays. -/
theorem lookup_foldl_step (hread : K.Readable table) (hkeys : (table.map Prod.fst).Nodup)
    (base : σ) {key : String} (hkey : key ∉ table.map Prod.fst) :
    (K.values (table.foldl K.step base)).lookup key = (K.values base).lookup key := by
  rw [K.values_foldl_step hread hkeys, lookup_map]
  unfold revised
  simp only [lookup_of_not_mem hkey, Option.map_id']

/-- A setting that it names is what its text says, whatever stands beside it and stood there. -/
theorem lookup_foldl_step_of_mem (hread : K.Readable table) (hkeys : (table.map Prod.fst).Nodup)
    (base : σ) {key text : String} (hmem : (key, text) ∈ table) :
    ∃ v, K.read key text = .ok v
      ∧ (K.values (table.foldl K.step base)).lookup key = some v := by
  obtain ⟨v, hv⟩ := hread _ hmem
  refine ⟨v, hv, ?_⟩
  have hthere : (K.values base).lookup key ≠ none := by
    rw [Ne, List.lookup_eq_none_iff]
    intro hall
    obtain ⟨e, he, hkey⟩ := List.mem_map.mp (K.mem_values hv base)
    have hne := hall e he
    rw [hkey, bne_self_eq_false] at hne
    cases hne
  obtain ⟨old, hold⟩ := Option.ne_none_iff_exists'.mp hthere
  rw [K.values_foldl_step hread hkeys, lookup_map, hold]
  unfold revised
  simp only [lookup_of_mem hkeys hmem, Option.map_some]
  rw [hv]

end Keyed

/-! ## What texts say -/

/-- What is read goes into the list of settings and comes back from there. -/
theorem map_eq_map_map {α β γ : Type} {r : Except Fault α} {f : α → β} {g : α → γ} {k : γ → β}
    (h : ∀ a, r = .ok a → f a = k (g a)) : r.map f = (r.map g).map k := by
  cases r with
  | error => rfl
  | ok a => exact congrArg Except.ok (h a rfl)

theorem exists_of_map_ok {α β : Type} {r : Except Fault α} {f : α → β} {b : β}
    (h : r.map f = .ok b) : ∃ a, r = .ok a ∧ f a = b := by
  cases r with
  | error => cases h
  | ok a => exact ⟨a, rfl, Except.ok.inj h⟩

theorem ofInt_toNat32 (v : UInt32) : UInt32.ofInt (v.toNat : Int) = v := by
  have hlt := v.toNat_lt
  rw [UInt32.ofInt, Int.emod_eq_of_lt (Int.natCast_nonneg _) (by omega), Int.toNat_natCast,
    UInt32.ofNat_toNat]

theorem ofInt_toNat64 (v : UInt64) : UInt64.ofInt (v.toNat : Int) = v := by
  have hlt := v.toNat_lt
  rw [UInt64.ofInt, Int.emod_eq_of_lt (Int.natCast_nonneg _) (by omega), Int.toNat_natCast,
    UInt64.ofNat_toNat]

/-- Modes that have names are their numbers. -/
theorem ofCode_of_mode {option text : String} {mode : EvictionMode}
    (h : OptionValue.mode option text = .ok mode) :
    EvictionMode.ofCode (UInt8.ofInt (mode.code.toNat : Int)) = mode := by
  have hnamed : ∀ mode ∈ EvictionMode.named,
      EvictionMode.ofCode (UInt8.ofInt (mode.code.toNat : Int)) = mode := by decide
  refine hnamed mode ?_
  unfold OptionValue.mode OptionValue.ofNamed at h
  split at h
  · next found hfound =>
    cases h
    exact List.mem_of_find?_eq_some hfound
  · cases h

namespace RegionOptions

/-- The kind of each setting of a region. -/
def kindOf? : String → Option OptionKind
  | "name" => some .string
  | "initial_size" => some .unsigned64
  | "max_size" => some .unsigned64
  | "page_eviction_mode" => some .mode
  | "eviction_threshold" => some .binary64
  | "empty_pages_pool_size" => some .signed32
  | "swap_file_path" => some .string
  | "metrics_enabled" => some .boolean
  | "rate_time_interval_ms" => some .signed64
  | "sub_intervals" => some .signed32
  | _ => none

/-- What a text says for a key. -/
def read (fresh : RegionOptions) (key text : String) : Except Fault SettingValue :=
  match kindOf? key with
  | none => .error (.unknownOption key)
  | some kind => kind.read fresh key text

/-- Replaces the setting of a key, if it can hold the value. -/
def replace (o : RegionOptions) (key : String) (v : SettingValue) : RegionOptions :=
  (o.put key v).getD o

theorem set_eq (fresh o : RegionOptions) (key text : String) :
    o.set key text = (read fresh key text).map (o.replace key) := by
  unfold set read kindOf?
  split
  case h_2 =>
    exact map_eq_map_map fun v _ =>
      congrArg (fun n => { o with initialSize := n }) (ofInt_toNat64 v).symm
  case h_3 =>
    exact map_eq_map_map fun v _ =>
      congrArg (fun n => { o with maxSize := n }) (ofInt_toNat64 v).symm
  case h_4 =>
    exact map_eq_map_map fun _ hmode =>
      congrArg (fun m => { o with mode := m }) (ofCode_of_mode hmode).symm
  case h_6 =>
    exact map_eq_map_map fun v _ =>
      congrArg (fun n => { o with poolSize := n }) (Int32.ofInt_toInt v).symm
  case h_9 =>
    exact map_eq_map_map fun v _ =>
      congrArg (fun n => { o with rateInterval := n }) (Int64.ofInt_toInt v).symm
  case h_10 =>
    exact map_eq_map_map fun v _ =>
      congrArg (fun n => { o with subIntervals := n }) (Int32.ofInt_toInt v).symm
  case h_5 | h_8 => exact map_eq_map_map fun _ _ => rfl
  case h_1 | h_7 => rfl
  case h_11 => simp only [Except.map]

theorem keys_nodup (o : RegionOptions) : (o.values.map Prod.fst).Nodup := by
  simp only [values, List.map_cons, List.map_nil]
  decide

theorem exists_place {fresh : RegionOptions} {key text : String} {v : SettingValue}
    (h : read fresh key text = .ok v) (o : RegionOptions) :
    ∃ i, (o.values.map Prod.fst)[i]? = some key
      ∧ (o.replace key v).values = o.values.set i (key, v) := by
  unfold read kindOf? at h
  split at h
  · cases h
  · next kind hkind =>
    split at hkind <;> cases hkind
    case h_1.refl =>
      cases h
      exact ⟨0, rfl, rfl⟩
    case h_7.refl =>
      cases h
      exact ⟨6, rfl, rfl⟩
    all_goals obtain ⟨a, ha, rfl⟩ := exists_of_map_ok h
    case h_2.refl =>
      exact ⟨1, rfl, congrArg (fun n => values { o with initialSize := n }) (ofInt_toNat64 a)⟩
    case h_3.refl =>
      exact ⟨2, rfl, congrArg (fun n => values { o with maxSize := n }) (ofInt_toNat64 a)⟩
    case h_4.refl =>
      exact ⟨3, rfl, congrArg (fun m => values { o with mode := m }) (ofCode_of_mode ha)⟩
    case h_5.refl => exact ⟨4, rfl, rfl⟩
    case h_6.refl =>
      exact ⟨5, rfl, congrArg (fun n => values { o with poolSize := n }) (Int32.ofInt_toInt a)⟩
    case h_8.refl => exact ⟨7, rfl, rfl⟩
    case h_9.refl =>
      exact ⟨8, rfl, congrArg (fun n => values { o with rateInterval := n }) (Int64.ofInt_toInt a)⟩
    case h_10.refl =>
      exact ⟨9, rfl, congrArg (fun n => values { o with subIntervals := n }) (Int32.ofInt_toInt a)⟩

theorem replace_comm {key key' : String} (hne : key ≠ key') (o : RegionOptions)
    (v v' : SettingValue) :
    (o.replace key v).replace key' v' = (o.replace key' v').replace key v := by
  unfold replace put
  split <;> split <;> first | rfl | exact absurd rfl hne

/-- Settings of regions. -/
def keyed (fresh : RegionOptions) : Keyed RegionOptions where
  values := values
  read := read fresh
  put := replace
  keys_nodup := keys_nodup
  exists_place h o := exists_place h o
  put_comm hne o v v' := replace_comm hne o v v'

theorem ofTable_eq (fresh base : RegionOptions) (table : List (String × String)) :
    base.ofTable table = (keyed fresh).ofTable base table :=
  congrArg (fun f => table.foldlM f base) (funext fun o => funext fun e => set_eq fresh o e.1 e.2)

end RegionOptions

namespace MemoryOptions

/-- The kind of each setting of a registry. -/
def kindOf? : String → Option OptionKind
  | "page_size" => some .unsigned32
  | "regions" => some .regions
  | "default_region_name" => some .string
  | "default_region_size" => some .unsigned64
  | "system_region_initial_size" => some .unsigned64
  | "system_region_max_size" => some .unsigned64
  | "system_region_name" => some .string
  | "override_fair_fifo_eviction" => some .boolean
  | "persistence_enabled" => some .boolean
  | "work_dir" => some .string
  | "consistent_id" => some .string
  | "info_log_level" => some .logLevel
  | _ => none

/-- What a text says for a key. How lists of regions are read is left open. -/
def read (lists : List Char → Except Fault (List RegionOptions)) (fresh : RegionOptions)
    (key text : String) : Except Fault SettingValue :=
  match kindOf? key with
  | none => .error (.unknownOption key)
  | some .regions => (lists text.toList).map .regions
  | some kind => kind.read fresh key text

/-- Replaces the setting of a key, if it can hold the value. -/
def replace (o : MemoryOptions) (key : String) (v : SettingValue) : MemoryOptions :=
  (o.put key v).getD o

theorem set_eq (fresh : RegionOptions) (o : MemoryOptions) (key text : String) :
    o.set fresh key text = (read fresh.listOfText fresh key text).map (o.replace key) := by
  unfold set read kindOf?
  split
  case h_1 =>
    exact map_eq_map_map fun v _ =>
      congrArg (fun n => { o with pageSize := n }) (ofInt_toNat32 v).symm
  case h_4 =>
    exact map_eq_map_map fun v _ =>
      congrArg (fun n => { o with defaultRegionSize := n }) (ofInt_toNat64 v).symm
  case h_5 =>
    exact map_eq_map_map fun v _ =>
      congrArg (fun n => { o with systemInitialSize := n }) (ofInt_toNat64 v).symm
  case h_6 =>
    exact map_eq_map_map fun v _ =>
      congrArg (fun n => { o with systemMaxSize := n }) (ofInt_toNat64 v).symm
  case h_12 =>
    refine map_eq_map_map fun level _ => ?_
    cases level <;> rfl
  case h_2 | h_8 | h_9 => exact map_eq_map_map fun _ _ => rfl
  case h_3 | h_7 | h_10 | h_11 => rfl
  case h_13 => simp only [Except.map]

theorem keys_nodup (o : MemoryOptions) : (o.values.map Prod.fst).Nodup := by
  simp only [values, List.map_cons, List.map_nil]
  decide

theorem exists_place {lists : List Char → Except Fault (List RegionOptions)}
    {fresh : RegionOptions} {key text : String} {v : SettingValue}
    (h : read lists fresh key text = .ok v) (o : MemoryOptions) :
    ∃ i, (o.values.map Prod.fst)[i]? = some key
      ∧ (o.replace key v).values = o.values.set i (key, v) := by
  unfold read kindOf? at h
  split at h
  · cases h
  · next hkind =>
    obtain ⟨regions, -, rfl⟩ := exists_of_map_ok h
    split at hkind <;> cases hkind
    exact ⟨11, rfl, rfl⟩
  · next kind hother hkind =>
    split at hkind <;> cases hkind
    case h_2.refl => exact absurd rfl hother
    case h_3.refl =>
      cases h
      exact ⟨1, rfl, rfl⟩
    case h_7.refl =>
      cases h
      exact ⟨5, rfl, rfl⟩
    case h_10.refl =>
      cases h
      exact ⟨8, rfl, rfl⟩
    case h_11.refl =>
      cases h
      exact ⟨9, rfl, rfl⟩
    all_goals obtain ⟨a, -, rfl⟩ := exists_of_map_ok h
    case h_1.refl =>
      exact ⟨0, rfl, congrArg (fun n => values { o with pageSize := n }) (ofInt_toNat32 a)⟩
    case h_4.refl =>
      exact ⟨2, rfl, congrArg (fun n => values { o with defaultRegionSize := n }) (ofInt_toNat64 a)⟩
    case h_5.refl =>
      exact ⟨3, rfl, congrArg (fun n => values { o with systemInitialSize := n }) (ofInt_toNat64 a)⟩
    case h_6.refl =>
      exact ⟨4, rfl, congrArg (fun n => values { o with systemMaxSize := n }) (ofInt_toNat64 a)⟩
    case h_8.refl => exact ⟨6, rfl, rfl⟩
    case h_9.refl => exact ⟨7, rfl, rfl⟩
    case h_12.refl =>
      refine ⟨10, rfl, ?_⟩
      cases a <;> rfl

theorem replace_comm {key key' : String} (hne : key ≠ key') (o : MemoryOptions)
    (v v' : SettingValue) :
    (o.replace key v).replace key' v' = (o.replace key' v').replace key v := by
  unfold replace put
  split <;> split <;> first
    | rfl
    | exact absurd rfl hne
    | cases LogLevel.ofRank? _ <;> rfl

/-- Settings of registries. -/
def keyed (lists : List Char → Except Fault (List RegionOptions)) (fresh : RegionOptions) :
    Keyed MemoryOptions where
  values := values
  read := read lists fresh
  put := replace
  keys_nodup := keys_nodup
  exists_place h o := exists_place h o
  put_comm hne o v v' := replace_comm hne o v v'

theorem ofTable_eq (fresh : RegionOptions) (base : MemoryOptions)
    (table : List (String × String)) :
    base.ofTable fresh table = (keyed fresh.listOfText fresh).ofTable base table :=
  congrArg (fun f => table.foldlM f base) (funext fun o => funext fun e => set_eq fresh o e.1 e.2)

end MemoryOptions
end PageRegions
