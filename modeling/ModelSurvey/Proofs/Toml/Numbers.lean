import ModelSurvey.Proofs.Text.Numerals
import ModelSurvey.Toml.Number

/-! Integers at the end of a line are read as written. Digits with nothing but a line end behind them
are no date and no time, because the marks of these come after two or four digits, and no float,
because neither a fraction nor an exponent follows. -/
namespace ModelSurvey.Toml
set_option autoImplicit false
open Text

variable {c : Char} {cs ds r : List Char}

/-! ## Dates and times -/

/-- Digits up to the end of a line. -/
def IsDigitLine (cs : List Char) : Prop :=
  ∃ ds r, (∀ d ∈ ds, d.isDigit = true) ∧ cs = ds ++ '\n' :: r

namespace IsDigitLine

theorem twoDigits? {p : Nat × List Char} (h : IsDigitLine cs) (hp : twoDigits? cs = some p) :
    IsDigitLine p.2 := by
  obtain ⟨ds, r, hds, rfl⟩ := h
  match ds, hds with
  | [], _ => cases r <;> cases hp
  | [a], _ =>
    rw [List.singleton_append, Toml.twoDigits?, show digit? 10 '\n' = none from rfl] at hp
    cases hdigit : digit? 10 a <;> rw [hdigit] at hp <;> cases hp
  | a :: b :: ds, hds =>
    simp only [List.cons_append, Toml.twoDigits?, Option.bind_eq_some_iff,
      Option.map_eq_some_iff] at hp
    obtain ⟨x, -, y, -, rfl⟩ := hp
    exact ⟨ds, r, fun d hd => hds d (List.mem_cons_of_mem a (List.mem_cons_of_mem b hd)), rfl⟩

theorem expect? (h : IsDigitLine cs) (hdigit : c.isDigit = false) (hline : c ≠ '\n') :
    expect? c cs = none := by
  obtain ⟨ds, r, hds, rfl⟩ := h
  cases ds with
  | nil => exact if_neg hline.symm
  | cons d ds =>
    refine if_neg ?_
    rintro rfl
    rw [hds d (List.mem_cons_self ..)] at hdigit
    cases hdigit

theorem date? (h : IsDigitLine cs) : date? cs = none := by
  simp only [Toml.date?, Option.bind_eq_bind, Option.bind_eq_none_iff]
  intro century hcentury years hyears l hl
  rw [((h.twoDigits? hcentury).twoDigits? hyears).expect? rfl (by decide)] at hl
  cases hl

theorem time? (h : IsDigitLine cs) : time? cs = none := by
  simp only [Toml.time?, Option.bind_eq_bind, Option.bind_eq_none_iff, twoDigitsIn?,
    Option.filter_eq_some_iff]
  intro hour hhour l hl
  rw [(h.twoDigits? hhour.1).expect? rfl (by decide)] at hl
  cases hl

end IsDigitLine

theorem dateTime?_of_isDigitLine (h : IsDigitLine cs) : dateTime? cs = none := by
  rw [dateTime?, h.date?, h.time?]

theorem dateTime?_minus (cs : List Char) : dateTime? ('-' :: cs) = none := by
  cases cs <;> rfl

/-! ## Integers and floats -/

theorem moreDigits_append (hds : ∀ d ∈ ds, (digit? 10 d).isSome = true) (r : List Char) :
    moreDigits 10 (ds ++ '\n' :: r) = some (ds, '\n' :: r) := by
  induction ds with
  | nil => rfl
  | cons d ds ih =>
    obtain ⟨hd, hds⟩ := List.forall_mem_cons.1 hds
    have hmark : d ≠ '_' := by
      rintro rfl
      cases hd
    rw [List.cons_append, moreDigits, if_pos hd, ih hds]
    · rfl
    · exact fun he => absurd he hmark
    · exact fun _ _ he => absurd he hmark

theorem decimalRun_toDigits (n : Nat) (r : List Char) :
    decimalRun (Nat.toDigits 10 n ++ '\n' :: r) = some (Nat.toDigits 10 n, '\n' :: r) := by
  by_cases hn : n = 0
  · rw [hn, Nat.toDigits_zero]
    rfl
  · have hhead : (Nat.toDigits 10 n).head? ≠ some '0' := head?_toDigits_ne_zero (by decide) hn
    have hnumeral : Numeral 10 (Nat.toDigits 10 n) n := numeral_toDigits (by decide) n
    have hdigits := hnumeral.isSome_digit? (by decide)
    obtain ⟨d, ds, hd⟩ := List.exists_cons_of_ne_nil (Nat.toDigits_ne_nil (n := n) (b := 10))
    rw [hd] at hhead hdigits ⊢
    obtain ⟨hd, hds⟩ := List.forall_mem_cons.1 hdigits
    rw [List.cons_append, decimalRun, digitRun, if_pos hd, moreDigits_append hds r]
    · rfl
    · intro r he
      exact hhead (congrArg List.head? he)

/-- The digits of an integer, after a minus sign if it is negative. -/
theorem toList_toString (n : Int) :
    (toString n).toList = (if n < 0 then ['-'] else []) ++ Nat.toDigits 10 n.natAbs := by
  rw [Int.toString_eq_repr, Int.repr_eq_if]
  by_cases hn : n < 0
  · have habs : (-n).toNat = n.natAbs := by omega
    rw [if_pos hn, if_neg (by omega), String.toList_append, Nat.toList_repr, habs]
    rfl
  · have habs : n.toNat = n.natAbs := by omega
    rw [if_neg hn, if_pos (by omega), Nat.toList_repr, habs, List.nil_append]

/-- A numeral begins with a digit. -/
theorem toDigits_append_ne (hc : c.isDigit = false) (n : Nat) (r l : List Char) :
    Nat.toDigits 10 n ++ r ≠ c :: l := by
  intro he
  obtain ⟨d, ds, hd⟩ := List.exists_cons_of_ne_nil (Nat.toDigits_ne_nil (n := n) (b := 10))
  have hdigit := (numeral_toDigits (by decide) n).isDigit (by decide) d (hd ▸ List.mem_cons_self ..)
  rw [hd, List.cons_append, List.cons.injEq] at he
  rw [he.1, hc] at hdigit
  cases hdigit

/-- A zero stands alone, so it announces no base. -/
theorem toDigits_append_ne_zero (hc : c ≠ '\n') (n : Nat) (r l : List Char) :
    Nat.toDigits 10 n ++ '\n' :: r ≠ '0' :: c :: l := by
  intro he
  by_cases hn : n = 0
  · rw [hn, Nat.toDigits_zero, List.singleton_append, List.cons.injEq, List.cons.injEq] at he
    exact hc he.2.1.symm
  · have hhead := congrArg List.head? he
    rw [List.head?_append_of_ne_nil _ Nat.toDigits_ne_nil] at hhead
    exact head?_toDigits_ne_zero (by decide) hn hhead

theorem toString_append_ne (hc : c.isDigit = false) (hminus : c ≠ '-') (n : Int) (r l : List Char) :
    (toString n).toList ++ r ≠ c :: l := by
  rw [toList_toString]
  split
  · exact fun he => absurd (List.cons.inj he).1 hminus.symm
  · exact toDigits_append_ne hc _ r l

theorem signOf_toString (n : Int) (r : List Char) :
    signOf ((toString n).toList ++ r) = (decide (n < 0), Nat.toDigits 10 n.natAbs ++ r) := by
  rw [toList_toString]
  by_cases hn : n < 0
  · rw [if_pos hn, decide_eq_true hn]
    rfl
  · rw [if_neg hn, decide_eq_false hn, List.nil_append, signOf]
    · exact fun l => toDigits_append_ne rfl _ r l
    · exact fun l => toDigits_append_ne rfl _ r l

theorem dateTime?_toString (n : Int) (r : List Char) :
    dateTime? ((toString n).toList ++ '\n' :: r) = none := by
  rw [toList_toString]
  split
  · exact dateTime?_minus _
  · exact dateTime?_of_isDigitLine ⟨_, r, (numeral_toDigits (by decide) _).isDigit (by decide), rfl⟩

theorem float?_toString (n : Int) (r : List Char) :
    float? ((toString n).toList ++ '\n' :: r) = none := by
  rw [float?, signOf_toString]
  dsimp only
  split
  · rename_i he
    exact absurd he (toDigits_append_ne rfl _ _ _)
  · rename_i he
    exact absurd he (toDigits_append_ne rfl _ _ _)
  · rw [decimalRun_toDigits]
    rfl

theorem integer?_toString {n : Int} (h : word? n = some n) (r : List Char) :
    integer? ((toString n).toList ++ '\n' :: r) = some (n, '\n' :: r) := by
  have hsigned : (if decide (n < 0) = true then -(n.natAbs : Int) else n.natAbs) = n := by
    split <;> rename_i hn <;> rw [decide_eq_true_eq] at hn <;> omega
  have hbased {c : Char} (hc : c ≠ '\n') (l : List Char) :
      (toString n).toList ++ '\n' :: r ≠ '0' :: c :: l := by
    rw [toList_toString]
    split
    · exact fun he => absurd (List.cons.inj he).1 (by decide)
    · exact toDigits_append_ne_zero hc _ r l
  rw [integer?]
  · rw [signOf_toString]
    dsimp only
    rw [decimalRun_toDigits, Option.bind_some,
      (numeral_toDigits (by decide) _).numeral? (by decide), Option.bind_some, hsigned, h,
      Option.map_some]
  all_goals exact hbased (by decide)

end ModelSurvey.Toml
