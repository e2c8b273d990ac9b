import ModelSurvey.Proofs.Syntax.IntegerLiterals
import ModelSurvey.Proofs.Syntax.Nodes
import ModelSurvey.Syntax.Lower
import ModelSurvey.Value.Evaluate

/-! Literals for the numbers of a signed 64-bit word. A literal is an integer token, or a minus sign
over one, and the token is read before the sign is looked at. So a literal has its value exactly if
the magnitude fits a word, and of all words the smallest, whose magnitude does not, is the only one
that no literal stands for. -/
namespace ModelSurvey.Syntax
set_option autoImplicit false
open Text

/-! ## Texts in a source -/

theorem Source.decode?_utf8 (text : String) :
    Source.decode? text.toUTF8.data.toList = some text := by
  have hvalid : String.fromUTF8? text.toUTF8 = some text := dif_pos text.isValidUTF8
  simpa only [Source.decode?, Array.toArray_toList] using hvalid

/-- The text of a label is what its bytes are the encoding of. -/
theorem Source.text_of_bytes {s : Source} {a : Label} {text : String} (before after : List UInt8)
    (hbytes : s.bytes = before ++ (text.toUTF8.data.toList ++ after))
    (hstart : a.start = before.length)
    (hstop : a.stop = before.length + text.toUTF8.data.toList.length) : s.text a = text := by
  rw [Source.text, hbytes, hstart, hstop, List.take_length_add_append, List.drop_left,
    List.take_left, Source.decode?_utf8, Option.getD_some]

/-! ## Literals -/

/-- `t` is a literal for the number, with the digits `text`. -/
inductive IntegerLiteral (s : Source) (text : String) : Tree → Int → Prop where
  | token {t : Tree} {n : Nat} (hkind : t.kind = "integer") (htext : s.text t.label = text)
    (h : WritesMagnitude (withoutUnderscores text) n) : IntegerLiteral s text t n
  | negated {t operator operand : Tree} {n : Nat} (hkind : t.kind = "unary")
    (hoperator : t.field? "operator" = some operator) (hminus : s.text operator.label = "-")
    (hoperand : t.field? "operand" = some operand) (htoken : operand.kind = "integer")
    (htext : s.text operand.label = text)
    (h : WritesMagnitude (withoutUnderscores text) n) : IntegerLiteral s text t (-n)

variable {s : Source} {text : String} {t operator operand : Tree} {n : Nat} {v : Int}

theorem integer?_of_magnitude (h : WritesMagnitude (withoutUnderscores text) n) :
    integer? text = if n < 2 ^ 63 then some (n : Int) else none := by
  rw [integer?_of_writes (.unsigned h) rfl, Int.natAbs_natCast]

/-! ## Lowering a literal -/

theorem lower_integer (hkind : t.kind = "integer") :
    lower s t = ((integer? (s.text t.label)).map Node.integer).getD (.other t.kind []) := by
  obtain ⟨a, cs⟩ := t
  have hform : Form.ofKind a.kind = .integer := congrArg Form.ofKind hkind
  simp only [lower, hform, Tree.kind, Tree.label]

theorem lower_unary (hkind : t.kind = "unary") :
    lower s t =
      ((negated? s t.children).map Node.integer).getD (.other t.kind (lowerParts s t.children)) := by
  obtain ⟨a, cs⟩ := t
  have hform : Form.ofKind a.kind = .unary := congrArg Form.ofKind hkind
  simp only [lower, hform, Tree.kind, Tree.label, Tree.children]

theorem negated?_of_minus (hoperator : t.field? "operator" = some operator)
    (hminus : s.text operator.label = "-") (hoperand : t.field? "operand" = some operand)
    (htoken : operand.kind = "integer") :
    negated? s t.children = (integer? (s.text operand.label)).bind fun n => word? (-n) := by
  rw [Tree.field?] at hoperator hoperand
  rw [negated?, fieldText?, hoperator, hoperand, Option.map_some, hminus]
  exact if_pos htoken

/-- The sign comes after the range check of the magnitude. -/
theorem IntegerLiteral.lower_eq (h : IntegerLiteral s text t v) :
    ∃ parts, lower s t = if v.natAbs < 2 ^ 63 then .integer v else .other t.kind parts := by
  cases h with
  | @token n hkind htext h =>
    refine ⟨[], ?_⟩
    rw [lower_integer hkind, htext, integer?_of_magnitude h, Int.natAbs_natCast]
    split <;> rfl
  | @negated operator operand n hkind hoperator hminus hoperand htoken htext h =>
    refine ⟨lowerParts s t.children, ?_⟩
    rw [lower_unary hkind, negated?_of_minus hoperator hminus hoperand htoken, htext,
      integer?_of_magnitude h, Int.natAbs_neg, Int.natAbs_natCast]
    by_cases hn : n < 2 ^ 63
    · rw [if_pos hn, if_pos hn, Option.bind_some, word?_neg_natCast hn]
      rfl
    · rw [if_neg hn, if_neg hn]
      rfl

theorem IntegerLiteral.evaluate_eq (h : IntegerLiteral s text t v) :
    (lower s t).evaluate = if v.natAbs < 2 ^ 63 then some (.integer v) else none := by
  obtain ⟨parts, hlower⟩ := h.lower_eq
  rw [hlower]
  split <;> simp [Node.evaluate]

theorem IntegerLiteral.lower_eq_integer_iff (h : IntegerLiteral s text t v) :
    lower s t = .integer v ↔ v.natAbs < 2 ^ 63 := by
  obtain ⟨parts, hlower⟩ := h.lower_eq
  rw [hlower]
  split <;> simp_all

/-! ## Every number has a literal -/

/-- The tree of an integer token. -/
def integerToken (field : Option String) (start stop : Nat) : Tree :=
  .clean "integer" field start stop []

/-- The tree of a minus sign and an integer token, at the beginning of a text. -/
def negatedToken (stop : Nat) : Tree :=
  .clean "unary" none 0 stop
    [.node ⟨"-", false, false, false, false, some "operator", 0, 1⟩ [],
      integerToken (some "operand") 1 stop]

theorem exists_token (h : WritesMagnitude (withoutUnderscores text) n) :
    ∃ s t, IntegerLiteral s text t n := by
  refine ⟨.ofString text, integerToken none 0 text.toUTF8.data.toList.length,
    .token rfl (Source.text_of_bytes [] [] ?_ rfl ?_) h⟩
  · rw [List.append_nil]
    rfl
  · exact (Nat.zero_add _).symm

theorem exists_negated (h : WritesMagnitude (withoutUnderscores text) n) :
    ∃ s t, IntegerLiteral s text t (-n) := by
  let minus : List UInt8 := "-".toUTF8.data.toList
  let digits : List UInt8 := text.toUTF8.data.toList
  refine ⟨⟨minus ++ digits⟩, negatedToken (1 + digits.length), .negated rfl rfl ?_ rfl rfl ?_ h⟩
  · exact Source.text_of_bytes [] digits rfl rfl rfl
  · refine Source.text_of_bytes minus [] ?_ rfl rfl
    rw [List.append_nil]

theorem exists_literal (h : WritesMagnitude (withoutUnderscores text) v.natAbs) :
    ∃ s t, IntegerLiteral s text t v := by
  rcases Int.natAbs_eq v with hv | hv
  · rw [hv]
    exact exists_token h
  · rw [hv]
    exact exists_negated h

/-- Digits for a number of 64 bits, in any base and with any underscores, make a literal of it, and
each such literal is lowered to the number and has it as its value exactly if it is not the smallest
one. Larger and smaller numbers are not read as others. -/
theorem literals_denote_all_but_smallest (text : String) (v : Int)
    (hwrites : WritesMagnitude (withoutUnderscores text) v.natAbs) :
    (∃ s t, IntegerLiteral s text t v) ∧
    ∀ s t, IntegerLiteral s text t v →
      (-2 ^ 63 ≤ v → v ≤ 2 ^ 63 - 1 →
        (lower s t = .integer v ∧ (lower s t).evaluate = some (.integer v) ↔ v ≠ -2 ^ 63)) ∧
      (v ≤ -2 ^ 63 ∨ 2 ^ 63 ≤ v → (lower s t).evaluate = none) := by
  refine ⟨exists_literal hwrites, fun s t h => ⟨fun hlow hhigh => ?_, fun hout => ?_⟩⟩
  · have hfits : v.natAbs < 2 ^ 63 ↔ v ≠ -2 ^ 63 := by omega
    rw [h.lower_eq_integer_iff, h.evaluate_eq, ← hfits]
    exact ⟨And.left, fun hv => ⟨hv, if_pos hv⟩⟩
  · rw [h.evaluate_eq, if_neg (by omega)]

/-- The smallest number of 64 bits, and the one after it in hexadecimal. -/
def smallestWords : Source := .ofString "-9223372036854775808 -0X7fff_FFFF_ffff_FFFF"

def secondSmallestLiteral : Tree :=
  .clean "unary" none 21 43
    [.node ⟨"-", false, false, false, false, some "operator", 21, 22⟩ [],
      integerToken (some "operand") 22 43]

theorem smallest_literal_has_no_value :
    IntegerLiteral smallestWords "9223372036854775808" (negatedToken 20) (-2 ^ 63) ∧
    (lower smallestWords (negatedToken 20)).evaluate = none ∧
    lower smallestWords (negatedToken 20) ≠ .integer (-2 ^ 63) ∧
    (Node.integer (-2 ^ 63)).evaluate = some (.integer (-2 ^ 63)) := by
  have hnumeral : Numeral 10 "9223372036854775808".toList (2 ^ 63) :=
    ⟨by decide, [9, 2, 2, 3, 3, 7, 2, 0, 3, 6, 8, 5, 4, 7, 7, 5, 8, 0, 8], by decide, by decide⟩
  have hliteral : IntegerLiteral smallestWords "9223372036854775808" (negatedToken 20)
      (-(2 ^ 63 : Nat)) :=
    .negated rfl rfl (by decide +kernel) rfl rfl (by decide +kernel)
      (.decimal hnumeral (Or.inr (by decide)))
  have hnone : (lower smallestWords (negatedToken 20)).evaluate = none := by decide +kernel
  refine ⟨hliteral, hnone, fun hlower => ?_, by simp [Node.evaluate]⟩
  rw [hlower] at hnone
  simp [Node.evaluate] at hnone

theorem literals_denote_all_but_smallest_hexadecimal :
    lower smallestWords secondSmallestLiteral = .integer (-0x7fffffffffffffff) := by
  have hnumeral : Numeral 16 "7fffFFFFffffFFFF".toList 0x7fffffffffffffff :=
    ⟨by decide, 7 :: List.replicate 15 15, by decide, by decide⟩
  have hwrites : WritesMagnitude (withoutUnderscores "0X7fff_FFFF_ffff_FFFF")
      (0x7fffffffffffffff : Nat) :=
    .marked (by decide : (16, 'x') ∈ markedBases) (Or.inr rfl) hnumeral
  have hliteral : IntegerLiteral smallestWords "0X7fff_FFFF_ffff_FFFF" secondSmallestLiteral
      (-(0x7fffffffffffffff : Nat)) :=
    .negated rfl rfl (by decide +kernel) rfl rfl (by decide +kernel) hwrites
  obtain ⟨hvalue, -⟩ := (literals_denote_all_but_smallest _ _ hwrites).2 _ _ hliteral
  exact ((hvalue (by decide) (by decide)).2 (by decide)).1

end ModelSurvey.Syntax
