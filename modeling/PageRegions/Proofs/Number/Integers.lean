import Mathlib.Data.List.Basic
import Mathlib.Data.List.TakeWhile
import Mathlib.Tactic.IntervalCases
import PageRegions.Number.Quantity

/-!
# What integers look like

The readers of numbers say what they take by how they take it. Here integers are described by their
shape alone: blanks, a sign and digits (`IsInteger`). The reader takes the longest integer at the
beginning of a text, whatever follows it (`integer?_append`, `exists_of_integer?`).

The proofs divide a text at the places where a reader stops: at its first character that is no blank
(`exists_front`), no digit (`exists_digits`), and at its first NUL byte (`exists_beforeNul`).
-/

set_option autoImplicit false

namespace PageRegions
namespace Reading

variable {value? : Char → Option Nat} {s t rest : List Char}

/-! ## Digits -/

/-- All of these are digits. -/
def Digits (value? : Char → Option Nat) (s : List Char) : Prop := ∀ c ∈ s, (value? c).isSome = true

/-- No digit comes next. -/
def Stops (value? : Char → Option Nat) (s : List Char) : Prop :=
  ∀ c, s.head? = some c → value? c = none

theorem stops_nil : Stops value? [] := nofun

theorem stops_cons {c : Char} (hc : value? c = none) : Stops value? (c :: s) := by
  intro d hd
  cases hd
  exact hc

/-- Every text has its digits in front, if any, and then stops. -/
theorem exists_digits (value? : Char → Option Nat) (s : List Char) :
    ∃ ds rest, s = ds ++ rest ∧ Digits value? ds ∧ Stops value? rest := by
  refine ⟨s.takeWhile fun c => (value? c).isSome, s.dropWhile fun c => (value? c).isSome,
    List.takeWhile_append_dropWhile.symm, fun c hc => ?_, fun c hc => ?_⟩
  · exact List.mem_takeWhile_imp (p := fun c => (value? c).isSome) hc
  · have hnot := List.head?_dropWhile_not (fun c => (value? c).isSome) s
    rw [hc] at hnot
    simpa using hnot

/-- What the digits amount to does not hang on what follows them. -/
theorem takeDigits_append (base acc count : Nat) {ds : List Char} (hds : Digits value? ds) :
    ∃ value, ∀ rest, Stops value? rest →
      takeDigits base value? acc count (ds ++ rest) = (value, count + ds.length, rest) := by
  induction ds generalizing acc count with
  | nil =>
    refine ⟨acc, fun rest hrest => ?_⟩
    cases rest with
    | nil => rfl
    | cons c t =>
      rw [List.nil_append, takeDigits, hrest c rfl]
      rfl
  | cons c ds ih =>
    obtain ⟨d, hd⟩ := Option.isSome_iff_exists.mp (hds c List.mem_cons_self)
    obtain ⟨value, heq⟩ := ih (acc * base + d) (count + 1)
      fun x hx => hds x (List.mem_cons_of_mem _ hx)
    refine ⟨value, fun rest hrest => ?_⟩
    rw [List.cons_append, takeDigits, hd]
    simp only
    rw [heq rest hrest, List.length_cons, Nat.add_assoc, Nat.add_comm 1]

theorem mem_of_isDigit {c : Char} (hc : c.isDigit = true) : c ∈ "0123456789".toList := by
  simp only [Char.isDigit, Bool.and_eq_true, decide_eq_true_eq] at hc
  change 48 ≤ c.toNat ∧ c.toNat ≤ 57 at hc
  obtain ⟨hlow, hhigh⟩ := hc
  rw [← Char.ofNat_toNat c]
  interval_cases c.toNat <;> decide

theorem mem_of_digit? {c : Char} (hc : (digit? c).isSome = true) : c ∈ "0123456789".toList := by
  unfold digit? at hc
  split at hc
  · next hdigit => exact mem_of_isDigit hdigit
  · cases hc

theorem mem_of_hexDigit? {c : Char} (hc : (hexDigit? c).isSome = true) :
    c ∈ "0123456789abcdefABCDEF".toList := by
  unfold hexDigit? at hc
  split at hc
  · next hdigit =>
    have hsub : "0123456789".toList ⊆ "0123456789abcdefABCDEF".toList := by decide
    exact hsub (mem_of_isDigit hdigit)
  · split at hc
    · next hlower =>
      rw [Bool.and_eq_true, decide_eq_true_eq, decide_eq_true_eq] at hlower
      change 97 ≤ c.toNat ∧ c.toNat ≤ 102 at hlower
      obtain ⟨hlow, hhigh⟩ := hlower
      rw [← Char.ofNat_toNat c]
      interval_cases c.toNat <;> decide
    · split at hc
      · next hupper =>
        rw [Bool.and_eq_true, decide_eq_true_eq, decide_eq_true_eq] at hupper
        change 65 ≤ c.toNat ∧ c.toNat ≤ 70 at hupper
        obtain ⟨hlow, hhigh⟩ := hupper
        rw [← Char.ofNat_toNat c]
        interval_cases c.toNat <;> decide
      · cases hc

/-! ## In front of a number -/

/-- A sign, or none. -/
def IsSign (s : List Char) : Prop := s = [] ∨ s = ['-'] ∨ s = ['+']

/-- Blanks and a sign in front of something. -/
inductive Signed (P : List Char → Prop) : List Char → Prop
  | intro {blanks sign body : List Char} (blank : ∀ c ∈ blanks, Text.isBlank c = true)
      (isSign : IsSign sign) (holds : P body) : Signed P (blanks ++ (sign ++ body))

/-- A character that a number begins with, behind its sign. -/
def Leads (s : List Char) : Prop :=
  ∃ c more, s = c :: more ∧ Text.isBlank c = false ∧ c ≠ '-' ∧ c ≠ '+'

theorem exists_sign (s : List Char) : ∃ sign, s = sign ++ (takeSign s).2 ∧ IsSign sign := by
  unfold takeSign
  split
  · exact ⟨['-'], rfl, Or.inr (Or.inl rfl)⟩
  · exact ⟨['+'], rfl, Or.inr (Or.inr rfl)⟩
  · exact ⟨[], rfl, Or.inl rfl⟩

theorem takeSign_append {sign body : List Char} (hsign : IsSign sign) (hlead : Leads body)
    (rest : List Char) :
    takeSign (sign ++ (body ++ rest)) = (decide (sign = ['-']), body ++ rest) := by
  obtain ⟨c, more, rfl, -, hminus, hplus⟩ := hlead
  rcases hsign with rfl | rfl | rfl
  · unfold takeSign
    split
    · next heq => exact absurd (List.cons.inj heq).1 hminus
    · next heq => exact absurd (List.cons.inj heq).1 hplus
    · rfl
  · rfl
  · rfl

/-- Every text has blanks and a sign in front, if any. -/
theorem exists_front (s : List Char) : ∃ blanks sign body, s = blanks ++ (sign ++ body)
    ∧ (∀ c ∈ blanks, Text.isBlank c = true) ∧ IsSign sign
    ∧ body = (takeSign (s.dropWhile Text.isBlank)).2 := by
  obtain ⟨sign, heq, hsign⟩ := exists_sign (s.dropWhile Text.isBlank)
  refine ⟨s.takeWhile Text.isBlank, sign, _, ?_, fun c hc => List.mem_takeWhile_imp hc, hsign, rfl⟩
  rw [← heq, List.takeWhile_append_dropWhile]

/-- Which sign is read and what is read behind it does not hang on what follows. -/
theorem Signed.front {P : List Char → Prop} (hs : Signed P s)
    (hlead : ∀ body, P body → Leads body) :
    ∃ front body negative, s = front ++ body ∧ P body
      ∧ ∀ rest, takeSign ((s ++ rest).dropWhile Text.isBlank) = (negative, body ++ rest) := by
  obtain @⟨blanks, sign, body, hblank, hsign, hbody⟩ := hs
  refine ⟨blanks ++ sign, body, decide (sign = ['-']), (List.append_assoc ..).symm, hbody,
    fun rest => ?_⟩
  have hstop : ((sign ++ (body ++ rest)).dropWhile Text.isBlank) = sign ++ (body ++ rest) := by
    rcases hsign with rfl | rfl | rfl
    · obtain ⟨c, more, rfl, hc, -⟩ := hlead body hbody
      exact List.dropWhile_cons_of_neg (Bool.eq_false_iff.mp hc)
    · rfl
    · rfl
  rw [List.append_assoc, List.append_assoc, List.dropWhile_append_of_pos hblank, hstop,
    takeSign_append hsign (hlead body hbody)]

/-! ## The end of a text -/

theorem Signed.not_mem {P : List Char → Prop} {c : Char} (hs : Signed P s)
    (hblank : Text.isBlank c = false) (hsign : c ≠ '-' ∧ c ≠ '+')
    (hbody : ∀ body, P body → c ∉ body) : c ∉ s := by
  obtain @⟨blanks, sign, body, hblanks, hsigns, hP⟩ := hs
  rw [List.mem_append, List.mem_append, not_or, not_or]
  refine ⟨fun hc => ?_, fun hc => ?_, hbody body hP⟩
  · rw [hblanks c hc] at hblank
    cases hblank
  · rcases hsigns with rfl | rfl | rfl
    · cases hc
    · exact hsign.1 (List.mem_singleton.mp hc)
    · exact hsign.2 (List.mem_singleton.mp hc)

theorem beforeNul_append (hs : '\x00' ∉ s) (rest : List Char) :
    Text.beforeNul (s ++ rest) = s ++ Text.beforeNul rest :=
  List.takeWhile_append_of_pos fun _ hc => decide_eq_true fun he => hs (he ▸ hc)

theorem beforeNul_of_not_mem (hs : '\x00' ∉ s) : Text.beforeNul s = s := by
  have happend := beforeNul_append hs []
  rwa [List.append_nil, show Text.beforeNul [] = [] from rfl, List.append_nil] at happend

theorem exists_beforeNul (s : List Char) :
    ∃ tail, s = Text.beforeNul s ++ tail ∧ ∀ c, tail.head? = some c → c = '\x00' := by
  refine ⟨s.dropWhile (· ≠ '\x00'), List.takeWhile_append_dropWhile.symm, fun c hc => ?_⟩
  have hnot := List.head?_dropWhile_not (· ≠ '\x00') s
  rw [hc] at hnot
  simpa using hnot

theorem Stops.beforeNul (hs : Stops value? s) : Stops value? (Text.beforeNul s) := by
  cases s with
  | nil => exact stops_nil
  | cons c more =>
    unfold Text.beforeNul
    rw [List.takeWhile_cons]
    split
    · exact stops_cons (hs c rfl)
    · exact stops_nil

theorem Stops.append (hs : Stops value? s) {tail : List Char} (htail : Stops value? tail) :
    Stops value? (s ++ tail) := by
  cases s with
  | nil => exact htail
  | cons c more => exact stops_cons (hs c rfl)

/-! ## Integers -/

def IsInteger : List Char → Prop := Signed fun ds => ds ≠ [] ∧ Digits digit? ds

theorem leads_of_mem {c : Char} (hc : c ∈ ".0123456789".toList) : Leads (c :: s) := by
  have hall : ∀ c ∈ ".0123456789".toList, Text.isBlank c = false ∧ c ≠ '-' ∧ c ≠ '+' :=
    List.forall_iff_forall_mem.mp (by decide)
  exact ⟨c, s, rfl, hall c hc⟩

theorem leads_of_digits (hne : s ≠ []) (hs : Digits digit? s) : Leads s := by
  obtain ⟨c, more, rfl⟩ := List.exists_cons_of_ne_nil hne
  have hsub : "0123456789".toList ⊆ ".0123456789".toList := by decide
  exact leads_of_mem (hsub (mem_of_digit? (hs c List.mem_cons_self)))

theorem IsInteger.not_mem_nul (hs : IsInteger s) : '\x00' ∉ s :=
  hs.not_mem rfl (by decide) fun _ hds hc => Bool.false_ne_true (hds.2 _ hc)

/-- **An integer is read in full**, and alike whatever follows it, if that is no digit. -/
theorem integer?_append (hs : IsInteger s) : ∃ n : Integer, n.taken = s.length
    ∧ ∀ rest, Stops digit? rest → integer? (s ++ rest) = some n := by
  have hnul := hs.not_mem_nul
  obtain ⟨front, ds, negative, rfl, ⟨hne, hds⟩, hsign⟩ :=
    hs.front fun _ hds => leads_of_digits hds.1 hds.2
  obtain ⟨value, hvalue⟩ := takeDigits_append 10 0 0 hds
  refine ⟨⟨negative, value, (front ++ ds).length⟩, rfl, fun rest hrest => ?_⟩
  unfold integer?
  simp only [beforeNul_append hnul, hsign, hvalue _ hrest.beforeNul]
  obtain ⟨d, more, rfl⟩ := List.exists_cons_of_ne_nil hne
  refine congrArg (fun taken => some (Integer.mk negative value taken)) ?_
  rw [List.length_append, Nat.add_sub_cancel]

/-- **What is read is an integer**, the longest there is at the beginning. -/
theorem exists_of_integer? {n : Integer} (h : integer? s = some n) :
    ∃ t rest, s = t ++ rest ∧ IsInteger t ∧ Stops digit? rest ∧ n.taken = t.length := by
  obtain ⟨tail, hs, htail⟩ := exists_beforeNul s
  obtain ⟨blanks, sign, body, htext, hblanks, hsign, hbody⟩ := exists_front (Text.beforeNul s)
  obtain ⟨ds, rest, hsplit, hds, hrest⟩ := exists_digits digit? body
  have hne : ds ≠ [] := by
    rintro rfl
    obtain ⟨value, hvalue⟩ := takeDigits_append 10 0 0 hds
    have hread := hvalue rest hrest
    unfold integer? at h
    rw [← hsplit, hbody] at hread
    simp only [hread] at h
    cases h
  have hint : IsInteger (blanks ++ (sign ++ ds)) := .intro hblanks hsign ⟨hne, hds⟩
  have hstops : Stops digit? (rest ++ tail) :=
    hrest.append fun c hc => by rw [htail c hc]; rfl
  have heq : s = (blanks ++ (sign ++ ds)) ++ (rest ++ tail) := by
    rw [hs, htext, hsplit]
    simp only [List.append_assoc]
  refine ⟨_, _, heq, hint, hstops, ?_⟩
  obtain ⟨m, hm, hall⟩ := integer?_append hint
  rw [heq, hall _ hstops] at h
  cases h
  exact hm

end Reading
end PageRegions
