import Mathlib.Data.Nat.Digits.Lemmas
import Mathlib.Data.List.Forall2
import Mathlib.Tactic.Ring
import ModelSurvey.Text.Blank
import ModelSurvey.Text.Digits

/-! Positional notation in bases up to sixteen. A numeral is a list of digits, the highest place
first, whose weights make up the number; from ten on a digit is a letter in either case. Reading a
numeral gives the number that it writes, whatever the leading zeros, and every number has a numeral
without any. -/
namespace ModelSurvey.Text
set_option autoImplicit false

/-- `c` is the digit of weight `w`, in either case where it is a letter. -/
def IsDigit (base : Nat) (c : Char) (w : Nat) : Prop :=
  w < base ∧ (c = w.digitChar ∨ c = w.digitChar.toUpper)

instance (base : Nat) (c : Char) (w : Nat) : Decidable (IsDigit base c w) :=
  inferInstanceAs (Decidable (_ ∧ _))

/-- The digits `cs` write the number `n`, the highest place first. -/
def Numeral (base : Nat) (cs : List Char) (n : Nat) : Prop :=
  cs ≠ [] ∧ ∃ ws, List.Forall₂ (IsDigit base) cs ws ∧ Nat.ofDigits base ws.reverse = n

variable {base n w : Nat} {c : Char} {cs : List Char}

/-! ## Digits -/

namespace IsDigit

/-- What holds of the digits of a base, in lower and in upper case. -/
theorem of_forall {b : Nat} {P : Char → Nat → Prop} (h : IsDigit base c w) (hbase : base ≤ b)
    (hall : ∀ v < b, P v.digitChar v ∧ P v.digitChar.toUpper v) : P c w := by
  obtain ⟨hlower, hupper⟩ := hall w (Nat.lt_of_lt_of_le h.1 hbase)
  rcases h.2 with rfl | rfl
  · exact hlower
  · exact hupper

theorem weight (hbase : base ≤ 16) (h : IsDigit base c w) : digitWeight? c = some w :=
  h.of_forall (P := fun c w => digitWeight? c = some w) hbase (by decide)

theorem digit? (hbase : base ≤ 16) (h : IsDigit base c w) : digit? base c = some w := by
  rw [Text.digit?, h.weight hbase, Option.filter_some, if_pos (decide_eq_true h.1)]

theorem toLower (hbase : base ≤ 16) (h : IsDigit base c w) : IsDigit base c.toLower w :=
  ⟨h.1, Or.inl (h.of_forall (P := fun c w => c.toLower = w.digitChar) hbase (by decide))⟩

theorem isAlphanum (hbase : base ≤ 16) (h : IsDigit base c w) : c.isAlphanum = true :=
  h.of_forall (P := fun c _ => c.isAlphanum = true) hbase (by decide)

theorem isBlank (hbase : base ≤ 16) (h : IsDigit base c w) : isBlank c = false :=
  h.of_forall (P := fun c _ => Text.isBlank c = false) hbase (by decide)

theorem isDigit (hbase : base ≤ 10) (h : IsDigit base c w) : c.isDigit = true :=
  h.of_forall (P := fun c _ => c.isDigit = true) hbase (by decide)

end IsDigit

theorem digit?_octal (h : (digit? 8 c).isSome = true) : '0' ≤ c ∧ c ≤ '7' := by
  obtain ⟨w, hw⟩ := Option.isSome_iff_exists.1 h
  have hlt := digit?_lt hw
  rw [digit?, Option.filter_eq_some_iff] at hw
  replace hw := hw.1
  unfold digitWeight? at hw
  have hzero : '0'.toNat = 48 := rfl
  split at hw
  · rename_i hc
    obtain rfl := Option.some.inj hw
    have hle : c.toNat < 56 := by omega
    exact ⟨hc.1, Nat.le_of_lt_succ hle⟩
  -- Letters stand for ten and more.
  · split at hw
    · obtain rfl := Option.some.inj hw
      omega
    · split at hw
      · obtain rfl := Option.some.inj hw
        omega
      · cases hw

theorem toLower_of_isDigit (h : c.isDigit = true) : c.toLower = c := by
  simp only [Char.isDigit, Bool.and_eq_true, decide_eq_true_eq] at h
  unfold Char.toLower
  split
  · rename_i hupper
    exact absurd (UInt32.le_trans hupper.1 h.2) (by decide)
  · rfl

/-! ## Numerals -/

/-- Further digits shift what was read before them to higher places. -/
theorem digitsFrom?_of_digits (hbase : base ≤ 16) {ws : List Nat}
    (h : List.Forall₂ (IsDigit base) cs ws) (acc : Nat) :
    digitsFrom? base acc cs = some (acc * base ^ ws.length + Nat.ofDigits base ws.reverse) := by
  induction h generalizing acc with
  | nil => simp [digitsFrom?]
  | @cons c w cs ws hdigit _ ih =>
    rw [digitsFrom?, hdigit.digit? hbase, Option.bind_some, ih, List.reverse_cons,
      Nat.ofDigits_append, Nat.ofDigits_singleton, List.length_reverse, List.length_cons]
    congr 1
    ring

namespace Numeral

theorem numeral? (hbase : base ≤ 16) (h : Numeral base cs n) : numeral? base cs = some n := by
  obtain ⟨hne, ws, hdigits, rfl⟩ := h
  cases cs with
  | nil => exact absurd rfl hne
  | cons c r =>
    rw [Text.numeral?, digitsFrom?_of_digits hbase hdigits, Nat.zero_mul, Nat.zero_add]

/-- What holds of all digits of a base holds of the characters of its numerals. -/
theorem of_forall {P : Char → Prop} (h : Numeral base cs n)
    (hall : ∀ c w, IsDigit base c w → P c) : ∀ c ∈ cs, P c := by
  obtain ⟨-, ws, hdigits, -⟩ := h
  induction hdigits with
  | nil => exact fun c hc => absurd hc List.not_mem_nil
  | cons hdigit _ ih => exact List.forall_mem_cons.2 ⟨hall _ _ hdigit, ih⟩

theorem isAlphanum (hbase : base ≤ 16) (h : Numeral base cs n) :
    ∀ c ∈ cs, c.isAlphanum = true := h.of_forall fun _ _ hdigit => hdigit.isAlphanum hbase

theorem isBlank (hbase : base ≤ 16) (h : Numeral base cs n) : ∀ c ∈ cs, isBlank c = false :=
  h.of_forall fun _ _ hdigit => hdigit.isBlank hbase

theorem isDigit (hbase : base ≤ 10) (h : Numeral base cs n) : ∀ c ∈ cs, c.isDigit = true :=
  h.of_forall fun _ _ hdigit => hdigit.isDigit hbase

theorem isSome_digit? (hbase : base ≤ 16) (h : Numeral base cs n) :
    ∀ c ∈ cs, (Text.digit? base c).isSome = true :=
  h.of_forall fun _ _ hdigit => Option.isSome_of_eq_some (hdigit.digit? hbase)

theorem map_toLower (hbase : base ≤ 16) (h : Numeral base cs n) :
    Numeral base (cs.map Char.toLower) n := by
  obtain ⟨hne, ws, hdigits, hvalue⟩ := h
  refine ⟨mt List.map_eq_nil_iff.1 hne, ws, ?_, hvalue⟩
  exact List.forall₂_map_left_iff.2 (hdigits.imp fun c w hdigit => hdigit.toLower hbase)

theorem map_toLower_eq (hbase : base ≤ 10) (h : Numeral base cs n) :
    cs.map Char.toLower = cs :=
  (List.map_congr_left fun c hc => toLower_of_isDigit (h.isDigit hbase c hc)).trans
    (List.map_id' cs)

/-- A numeral does not begin with a sign. -/
theorem plusNumeral? (hbase : base ≤ 16) (h : Numeral base cs n) :
    plusNumeral? base cs = some n := by
  rw [← h.numeral? hbase]
  unfold Text.plusNumeral?
  split
  · exact absurd (h.isAlphanum hbase '+' (List.mem_cons_self ..)) (by decide)
  · rfl

theorem signedNumeral? (hbase : base ≤ 16) (h : Numeral base cs n) :
    signedNumeral? base cs = some (n : Int) := by
  unfold Text.signedNumeral?
  split
  · exact absurd (h.isAlphanum hbase '-' (List.mem_cons_self ..)) (by decide)
  · rw [h.plusNumeral? hbase]
    rfl

end Numeral

/-! ## Numerals of numbers -/

theorem IsDigit.numeral (h : IsDigit base c w) : Numeral base [c] w :=
  ⟨List.cons_ne_nil _ _, [w], .cons h .nil, Nat.ofDigits_singleton⟩

theorem Numeral.snoc (h : Numeral base cs n) (hc : IsDigit base c w) :
    Numeral base (cs ++ [c]) (w + base * n) := by
  obtain ⟨-, ws, hdigits, rfl⟩ := h
  refine ⟨List.append_ne_nil_of_right_ne_nil cs (List.cons_ne_nil _ _), ws ++ [w],
    List.rel_append hdigits (.cons hc .nil), ?_⟩
  rw [List.reverse_append, List.reverse_singleton, List.singleton_append, Nat.ofDigits_cons]

theorem numeral_toDigits (hlow : 1 < base) (n : Nat) : Numeral base (Nat.toDigits base n) n := by
  induction n using Nat.strongRecOn with
  | ind n ih =>
    by_cases hn : n < base
    · rw [Nat.toDigits_of_lt_base hn]
      exact IsDigit.numeral ⟨hn, Or.inl rfl⟩
    · have hle := Nat.not_lt.1 hn
      have hlast : IsDigit base (n % base).digitChar (n % base) :=
        ⟨Nat.mod_lt n (Nat.zero_lt_of_lt hlow), Or.inl rfl⟩
      have h := (ih (n / base) (Nat.div_lt_self (by omega) hlow)).snoc hlast
      rwa [Nat.mod_add_div, ← Nat.toDigits_of_base_le hlow hle] at h

theorem head?_toDigits_ne_zero (hlow : 1 < base) (hn : n ≠ 0) :
    (Nat.toDigits base n).head? ≠ some '0' := by
  induction n using Nat.strongRecOn with
  | ind n ih =>
    by_cases hlt : n < base
    · rw [Nat.toDigits_of_lt_base hlt]
      simpa using hn
    · have hle := Nat.not_lt.1 hlt
      have hdiv : n / base ≠ 0 := Nat.ne_of_gt (Nat.div_pos hle (by omega))
      rw [Nat.toDigits_of_base_le hlow hle, List.head?_append_of_ne_nil _ Nat.toDigits_ne_nil]
      exact ih _ (Nat.div_lt_self (by omega) hlow) hdiv

/-- Every number has a numeral without leading zeros. -/
theorem exists_numeral (hlow : 1 < base) (n : Nat) :
    ∃ cs, Numeral base cs n ∧ (cs = ['0'] ∨ cs.head? ≠ some '0') := by
  refine ⟨Nat.toDigits base n, numeral_toDigits hlow n, ?_⟩
  by_cases hn : n = 0
  · exact Or.inl (hn ▸ Nat.toDigits_zero base)
  · exact Or.inr (head?_toDigits_ne_zero hlow hn)

/-! ## What is read is written so -/

/-- Up to ten a digit has one character. -/
theorem isDigit_of_digit? (hbase : base ≤ 10) (h : digit? base c = some w) : IsDigit base c w := by
  have hlt := digit?_lt h
  rw [digit?, Option.filter_eq_some_iff] at h
  have hweight := h.1
  refine ⟨hlt, Or.inl ?_⟩
  unfold digitWeight? at hweight
  split at hweight
  · rename_i hc
    have hge : 48 ≤ c.toNat := hc.1
    obtain rfl : c.toNat - 48 = w := Option.some.inj hweight
    have hall : ∀ v < 10, Char.ofNat (48 + v) = v.digitChar := by decide
    rw [← hall _ (Nat.lt_of_lt_of_le hlt hbase), Nat.add_sub_cancel' hge, Char.ofNat_toNat]
  -- Letters stand for ten and more.
  · split at hweight
    · obtain rfl := Option.some.inj hweight
      omega
    · split at hweight
      · obtain rfl := Option.some.inj hweight
        omega
      · cases hweight

theorem exists_digits_of_digitsFrom? (hbase : base ≤ 10) {acc : Nat}
    (h : digitsFrom? base acc cs = some n) : ∃ ws, List.Forall₂ (IsDigit base) cs ws := by
  induction cs generalizing acc with
  | nil => exact ⟨[], .nil⟩
  | cons c r ih =>
    obtain ⟨d, hd, hr⟩ := Option.bind_eq_some_iff.1 h
    obtain ⟨ws, hdigits⟩ := ih hr
    exact ⟨d :: ws, .cons (isDigit_of_digit? hbase hd) hdigits⟩

theorem numeral?_eq_some_iff (hbase : base ≤ 10) : numeral? base cs = some n ↔ Numeral base cs n := by
  constructor
  · intro h
    cases cs with
    | nil => cases h
    | cons c r =>
      obtain ⟨ws, hdigits⟩ := exists_digits_of_digitsFrom? hbase h
      have hnumeral : Numeral base (c :: r) (Nat.ofDigits base ws.reverse) :=
        ⟨List.cons_ne_nil c r, ws, hdigits, rfl⟩
      rw [hnumeral.numeral? (by omega)] at h
      exact Option.some.inj h ▸ hnumeral
  · exact fun h => h.numeral? (by omega)

theorem le_of_digitsFrom? {acc : Nat} (hbase : 0 < base) (h : digitsFrom? base acc cs = some n) :
    acc ≤ n := by
  induction cs generalizing acc with
  | nil => exact Nat.le_of_eq (Option.some.inj h)
  | cons c r ih =>
    obtain ⟨d, hd, hr⟩ := Option.bind_eq_some_iff.1 h
    calc acc ≤ acc * base := Nat.le_mul_of_pos_right acc hbase
      _ ≤ acc * base + d := Nat.le_add_right _ d
      _ ≤ n := ih hr

end ModelSurvey.Text
