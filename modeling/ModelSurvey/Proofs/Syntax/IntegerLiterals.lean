import ModelSurvey.Proofs.Text.Numerals
import ModelSurvey.Syntax.Literal

/-! Integer literals. The ways to write a whole number are a grammar of their own: a numeral after
the mark of its base, an octal one after a zero, or a decimal one without leading zeros, behind at
most one sign. Whatever is written so is read as the number it stands for if its magnitude is below
2^63 and as nothing otherwise, and underscores, wherever they stand, do not count. -/
namespace ModelSurvey.Syntax
set_option autoImplicit false
open Text

/-! ## Spellings -/

/-- The bases that a letter after a zero announces. -/
def markedBases : List (Nat × Char) := [(2, 'b'), (8, 'o'), (10, 'd'), (16, 'x')]

/-- The spellings of a number without a sign. -/
inductive WritesMagnitude : List Char → Nat → Prop where
  | marked {base n : Nat} {mark m : Char} {ds : List Char} (hmark : (base, mark) ∈ markedBases)
    (hcase : m = mark ∨ m = mark.toUpper) (h : Numeral base ds n) :
    WritesMagnitude ('0' :: m :: ds) n
  | octal {n : Nat} {ds : List Char} (h : Numeral 8 ds n) : WritesMagnitude ('0' :: ds) n
  | decimal {n : Nat} {ds : List Char} (h : Numeral 10 ds n)
    (hzeros : ds = ['0'] ∨ ds.head? ≠ some '0') : WritesMagnitude ds n

/-- The spellings of a whole number. -/
inductive WritesInteger : List Char → Int → Prop where
  | unsigned {cs : List Char} {n : Nat} (h : WritesMagnitude cs n) : WritesInteger cs n
  | plus {cs : List Char} {n : Nat} (h : WritesMagnitude cs n) : WritesInteger ('+' :: cs) n
  | minus {cs : List Char} {n : Nat} (h : WritesMagnitude cs n) : WritesInteger ('-' :: cs) (-n)

def withoutUnderscores (text : String) : List Char := text.toList.filter (· ≠ '_')

variable {n : Nat} {cs ds : List Char}

/-! ## Announced bases -/

theorem announcedBase_marked {base : Nat} {mark m : Char} (ds : List Char)
    (hmark : (base, mark) ∈ markedBases) (hcase : m = mark ∨ m = mark.toUpper) :
    base ≤ 16 ∧ announcedBase ('0' :: m.toLower :: ds) = (base, ds) := by
  simp only [markedBases, List.mem_cons, Prod.mk.injEq, List.not_mem_nil, or_false] at hmark
  rcases hmark with ⟨rfl, rfl⟩ | ⟨rfl, rfl⟩ | ⟨rfl, rfl⟩ | ⟨rfl, rfl⟩ <;>
    rcases hcase with rfl | rfl <;> exact ⟨by decide, rfl⟩

/-- No octal digit is the mark of a base. -/
theorem announcedBase_octal (h : Numeral 8 ds n) : announcedBase ('0' :: ds) = (8, ds) := by
  cases ds with
  | nil => exact absurd rfl h.1
  | cons c r =>
    have hc := h.isDigit (by decide) c (List.mem_cons_self ..)
    rw [announcedBase.eq_5]
    all_goals
      rintro rfl
      exact absurd hc (by decide)

theorem announcedBase_decimal (hzeros : ds = ['0'] ∨ ds.head? ≠ some '0') :
    announcedBase ds = (10, ds) := by
  rcases hzeros with rfl | hhead
  · rfl
  · unfold announcedBase
    split <;> first | rfl | exact absurd rfl hhead

/-- A literal announces the base that its digits are written in. -/
theorem announcedBase_of_writes (h : WritesMagnitude cs n) :
    ∃ base ds, announcedBase (cs.map Char.toLower) = (base, ds) ∧ base ≤ 16 ∧
      Numeral base ds n := by
  cases h with
  | @marked base n mark m ds hmark hcase h =>
    obtain ⟨hbase, hannounced⟩ := announcedBase_marked (ds.map Char.toLower) hmark hcase
    exact ⟨base, ds.map Char.toLower, hannounced, hbase, h.map_toLower hbase⟩
  | @octal n ds h =>
    refine ⟨8, ds, ?_, by decide, h⟩
    rw [List.map_cons, h.map_toLower_eq (by decide)]
    exact announcedBase_octal h
  | decimal h hzeros =>
    refine ⟨10, cs, ?_, by decide, h⟩
    rw [h.map_toLower_eq (by decide)]
    exact announcedBase_decimal hzeros

/-! ## Ranges -/

theorem word?_natCast (n : Nat) : word? n = if n < 2 ^ 63 then some (n : Int) else none := by
  unfold word?
  by_cases h : n < 2 ^ 63
  · rw [if_pos h, if_pos (by omega)]
  · rw [if_neg h, if_neg (by omega)]

theorem word?_neg_natCast (h : n < 2 ^ 63) : word? (-n : Int) = some (-n : Int) := by
  unfold word?
  rw [if_pos (by omega)]

/-! ## Reading -/

theorem magnitude?_of_writes (h : WritesMagnitude cs n) : magnitude? cs = word? n := by
  obtain ⟨base, ds, hannounced, hbase, hnumeral⟩ := announcedBase_of_writes h
  rw [magnitude?, hannounced]
  show (signedNumeral? base ds).bind word? = word? n
  rw [hnumeral.signedNumeral? hbase, Option.bind_some]

/-- A literal without a sign begins with a digit. -/
theorem isAlphanum_head_of_writes (h : WritesMagnitude cs n) :
    ∃ c r, cs = c :: r ∧ c.isAlphanum = true := by
  cases h with
  | marked hmark hcase h => exact ⟨'0', _, rfl, rfl⟩
  | octal h => exact ⟨'0', _, rfl, rfl⟩
  | decimal h hzeros =>
    obtain ⟨c, r, rfl⟩ := List.exists_cons_of_ne_nil h.1
    exact ⟨c, r, rfl, h.isAlphanum (by decide) c (List.mem_cons_self ..)⟩

theorem integer?_of_writes {v : Int} {text : String} (h : WritesInteger cs v)
    (htext : withoutUnderscores text = cs) :
    integer? text = if v.natAbs < 2 ^ 63 then some v else none := by
  rw [withoutUnderscores] at htext
  rw [integer?, htext]
  cases h with
  | @unsigned cs n h =>
    obtain ⟨c, r, rfl, hc⟩ := isAlphanum_head_of_writes h
    rw [Int.natAbs_natCast, ← word?_natCast, ← magnitude?_of_writes h]
    split
    · rename_i heq
      rw [(List.cons.inj heq).1] at hc
      exact absurd hc (by decide)
    · rename_i heq
      rw [(List.cons.inj heq).1] at hc
      exact absurd hc (by decide)
    · rfl
  | plus h => exact (magnitude?_of_writes h).trans (word?_natCast _)
  | @minus cs n h =>
    rw [Int.natAbs_neg, Int.natAbs_natCast]
    show (magnitude? cs).bind _ = _
    rw [magnitude?_of_writes h, word?_natCast]
    by_cases hn : n < 2 ^ 63
    · rw [if_pos hn, if_pos hn, Option.bind_some, word?_neg_natCast hn]
    · rw [if_neg hn, if_neg hn, Option.bind_none]

/-- Integer literals are read exactly or, from 2^63 on, not at all; only what is left without the
underscores counts; and each base has a numeral for every number. -/
theorem integer_literals_are_exact :
    (∀ cs v, WritesInteger cs v → ∀ text, withoutUnderscores text = cs →
      (v.natAbs ≤ 2 ^ 63 - 1 → integer? text = some v) ∧
      (2 ^ 63 ≤ v.natAbs → integer? text = none)) ∧
    (∀ text other, withoutUnderscores text = withoutUnderscores other →
      integer? text = integer? other) ∧
    ∀ base ∈ markedBases.map Prod.fst, ∀ n, ∃ ds, Numeral base ds n ∧
      (ds = ['0'] ∨ ds.head? ≠ some '0') := by
  refine ⟨fun cs v h text htext => ⟨fun hle => ?_, fun hge => ?_⟩, fun text other h => ?_,
    fun base hbase n => ?_⟩
  · rw [integer?_of_writes h htext, if_pos (by omega)]
  · rw [integer?_of_writes h htext, if_neg (by omega)]
  · unfold withoutUnderscores at h
    rw [integer?, integer?, h]
  · have hlow : ∀ b ∈ markedBases.map Prod.fst, 1 < b := by decide
    exact exists_numeral (hlow base hbase) n

/-- The last number that is read, with a minus sign and in hexadecimal, and the first one that is
not, in octal. -/
theorem integer_literals_are_exact_bounds :
    WritesInteger ('-' :: '0' :: 'X' :: '7' :: List.replicate 15 'F') (-0x7fffffffffffffff) ∧
    integer? "-0X_7FFF_FFFF_FFFF_FFFF" = some (-0x7fffffffffffffff) ∧
    WritesInteger ('0' :: '1' :: List.replicate 21 '0') 0x8000000000000000 ∧
    integer? "01_0000000_0000000_0000000" = none := by
  have hlow : WritesInteger ('-' :: '0' :: 'X' :: '7' :: List.replicate 15 'F')
      (-(0x7fffffffffffffff : Nat)) :=
    .minus (.marked (by decide : (16, 'x') ∈ markedBases) (Or.inr rfl)
      ⟨by decide, 7 :: List.replicate 15 15, by decide, by decide⟩)
  have hhigh : WritesInteger ('0' :: '1' :: List.replicate 21 '0') (0x8000000000000000 : Nat) :=
    .unsigned (.octal ⟨by decide, 1 :: List.replicate 21 0, by decide, by decide⟩)
  have hexact := integer_literals_are_exact.1
  exact ⟨hlow, (hexact _ _ hlow _ (by decide)).1 (by decide), hhigh,
    (hexact _ _ hhigh _ (by decide)).2 (by decide)⟩

end ModelSurvey.Syntax
