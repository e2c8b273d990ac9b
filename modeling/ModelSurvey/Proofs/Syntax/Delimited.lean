import ModelSurvey.Proofs.Syntax.SingleQuoted

/-! Text between chosen delimiters. A literal that begins with `%q` chooses them, and a backslash goes
before a backslash or one of them and stands for itself elsewhere; single quotes are one choice among
many. Every such literal is lowered by the rule of single quotes, though. An escaped delimiter keeps
its backslash then, and a backslash before a quote is lost, so the literal has the text it was written
for exactly if both rules agree on each character behind a backslash. -/
namespace ModelSurvey.Syntax
set_option autoImplicit false

/-! ## Delimiters -/

/-- What a literal begins and ends with: two brackets, or one character twice. -/
structure Delimiters where
  opening : Char
  closing : Char
deriving DecidableEq, Repr

namespace Delimiters

variable (d e : Delimiters) {c : Char}

def quotes : Delimiters := ⟨'\x27', '\x27'⟩

/-- Whether a backslash before the character is an escape between these delimiters. -/
def Escapes (c : Char) : Prop := c = '\\' ∨ c = d.opening ∨ c = d.closing

instance (c : Char) : Decidable (d.Escapes c) :=
  inferInstanceAs (Decidable (c = '\\' ∨ c = d.opening ∨ c = d.closing))

/-- The text with a backslash in front of every backslash and delimiter. -/
def escape (text : List Char) : List Char :=
  text.flatMap fun c => if d.Escapes c then ['\\', c] else [c]

/-- The text that is written between the delimiters. -/
def unescape : List Char → List Char
  | '\\' :: c :: r => if d.Escapes c then c :: unescape r else '\\' :: unescape (c :: r)
  | c :: r => c :: unescape r
  | [] => []

end Delimiters

/-- The characters behind a backslash that is not behind one itself. -/
def slashed : List Char → List Char
  | '\\' :: c :: r => c :: slashed r
  | _ :: r => slashed r
  | [] => []

theorem slashed_plain {c : Char} (hc : c ≠ '\\') (r : List Char) : slashed (c :: r) = slashed r := by
  rw [slashed.eq_def]
  split <;> rename_i he <;> cases he
  · exact absurd rfl hc
  · rfl

namespace Delimiters

variable {d e : Delimiters} {c : Char}

theorem escapes_quotes : quotes.Escapes c ↔ IsEscapable c := by
  rw [Escapes, IsEscapable, quotes, or_self_iff]

theorem unescape_other {r : List Char} (h : ∀ k q, c = '\\' → r = k :: q → False) :
    d.unescape (c :: r) = c :: d.unescape r := by
  rw [unescape.eq_def]
  split <;> rename_i he <;> cases he
  · exact (h _ _ rfl rfl).elim
  · rfl

theorem unescape_plain (hc : c ≠ '\\') (r : List Char) :
    d.unescape (c :: r) = c :: d.unescape r :=
  unescape_other fun _ _ he _ => hc he

theorem unescape_slash (c : Char) (r : List Char) :
    d.unescape ('\\' :: c :: r) = (if d.Escapes c then [c] else ['\\', c]) ++ d.unescape r := by
  rw [unescape]
  split
  · rfl
  · rename_i hc
    have hplain : c ≠ '\\' := fun he => hc (Or.inl he)
    rw [unescape_plain hplain]
    rfl

/-- Reading single quotes is reading with quotes for delimiters. -/
theorem unescape_quotes (written : List Char) : quotes.unescape written = unescapeSingle written := by
  fun_induction unescapeSingle written with
  | case1 c r hc ih =>
    rw [unescape_slash, if_pos (escapes_quotes.2 hc), ih]
    rfl
  | case2 c r hc ih =>
    rw [unescape, if_neg (mt escapes_quotes.1 hc), ih]
  | case3 c r hnot ih => rw [unescape_other hnot, ih]
  | case4 => rfl

/-! ## Two rules for one written text -/

/-- Two choices of delimiters read a text alike exactly if they agree on what stands behind its
backslashes. At the first disagreement one of them reads a backslash and the other something else. -/
theorem unescape_eq_iff (written : List Char) :
    d.unescape written = e.unescape written ↔
      ∀ c ∈ slashed written, d.Escapes c ↔ e.Escapes c := by
  fun_induction slashed written with
  | case1 c r ih =>
    rw [unescape_slash, unescape_slash, List.forall_mem_cons]
    by_cases hd : d.Escapes c <;> by_cases he : e.Escapes c
    · simp [hd, he, ih]
    · have hne : c ≠ '\\' := fun h => he (Or.inl h)
      simp [hd, he, hne]
    · have hne : '\\' ≠ c := fun h => hd (Or.inl h.symm)
      simp [hd, he, hne]
    · simp [hd, he, ih]
  | case2 c r hnot ih => rw [unescape_other hnot, unescape_other hnot, List.cons_inj_right, ih]
  | case3 => simp [unescape]

theorem slashed_escape (text : List Char) : slashed (d.escape text) = text.filter d.Escapes := by
  induction text with
  | nil => rfl
  | cons c text ih =>
    have hrest : slashed (d.escape text) = text.filter d.Escapes := ih
    rw [escape, List.flatMap_cons]
    by_cases hc : d.Escapes c
    · rw [if_pos hc, List.filter_cons_of_pos (by simpa using hc), ← hrest]
      rfl
    · have hplain : c ≠ '\\' := fun he => hc (Or.inl he)
      rw [if_neg hc, List.filter_cons_of_neg (by simpa using hc), ← hrest]
      exact slashed_plain hplain _

/-- An escaped text as other delimiters read it: what they do not escape keeps its backslash. -/
theorem unescape_escape (text : List Char) :
    e.unescape (d.escape text) =
      text.flatMap fun c => if d.Escapes c ∧ ¬e.Escapes c then ['\\', c] else [c] := by
  induction text with
  | nil => rfl
  | cons c text ih =>
    rw [escape, List.flatMap_cons, List.flatMap_cons, ← ih]
    by_cases hd : d.Escapes c
    · have hstart : e.unescape (['\\', c] ++ d.escape text) = _ := unescape_slash c (d.escape text)
      rw [if_pos hd]
      refine hstart.trans (congrArg (· ++ e.unescape (d.escape text)) ?_)
      by_cases he : e.Escapes c <;> simp [hd, he]
    · have hplain : c ≠ '\\' := fun he => hd (Or.inl he)
      rw [if_neg hd, if_neg (fun h => hd h.1)]
      exact unescape_plain hplain _

theorem unescape_escape_self (text : List Char) : d.unescape (d.escape text) = text := by
  rw [unescape_escape]
  simp

end Delimiters

/-! ## Literals -/

variable {s : Source} {t content : Tree}

theorem stringChars?_of_content (hkind : t.kind = "string")
    (hquote : isSingleQuoted (s.text t.label).toList = true) (hparts : t.parts = [content])
    (hcontent : content.kind = "string_content") :
    stringChars? s t = some (unescapeSingle (s.text content.label).toList) := by
  rw [stringChars?_of_not_isPlainWord (isPlainWord_of_kind (Or.inl hkind)), hquote, hparts]
  have hpiece : pieceText? s true content =
      some (unescapeSingle (s.text content.label).toList) := by
    rw [pieceText?, if_pos hcontent, if_pos rfl]
  exact (concatPieces?_cons hpiece rfl).trans (congrArg some (List.append_nil _))

/-- A literal with `%q` is lowered to what its content stands for between the delimiters exactly if
its backslashes stand before characters that the delimiters and single quotes treat alike. If all
backslashes and delimiters of a text are escaped in it, that text is what it stands for, but each
delimiter that single quotes do not escape is lowered with its backslash; so it is lowered to the
text exactly if there is none. -/
theorem percent_text_decodes_iff (s : Source) (d : Delimiters) {t content : Tree}
    (hkind : t.kind = "string") (hopen : ['%', 'q'] <+: (s.text t.label).toList)
    (hparts : t.parts = [content]) (hcontent : content.kind = "string_content") :
    (lower s t = .string (String.ofList (d.unescape (s.text content.label).toList)) ↔
      ∀ c ∈ slashed (s.text content.label).toList, d.Escapes c ↔ IsEscapable c) ∧
    ∀ text, (s.text content.label).toList = d.escape text →
      d.unescape (s.text content.label).toList = text ∧
      lower s t = .string (String.ofList
        (text.flatMap fun c => if d.Escapes c ∧ ¬IsEscapable c then ['\\', c] else [c])) ∧
      (lower s t = .string (String.ofList text) ↔
        ∀ c ∈ text, c = d.opening ∨ c = d.closing → IsEscapable c) := by
  have hquote : isSingleQuoted (s.text t.label).toList = true := by
    obtain ⟨rest, hrest⟩ := hopen
    rw [← hrest]
    rfl
  have hlower (chars : List Char) : lower s t = .string (String.ofList chars) ↔
      Delimiters.quotes.unescape (s.text content.label).toList = chars := by
    rw [lower_of_stringChars? hkind, stringChars?_of_content hkind hquote hparts hcontent,
      Option.some.injEq, String.toList_ofList, Delimiters.unescape_quotes]
  have hread := Delimiters.unescape_eq_iff (d := .quotes) (e := d) (s.text content.label).toList
  simp only [Delimiters.escapes_quotes] at hread
  refine ⟨?_, fun text hwritten => ?_⟩
  · rw [hlower, hread]
    exact forall₂_congr fun c _ => Iff.comm
  · have hself : d.unescape (s.text content.label).toList = text := by
      rw [hwritten, Delimiters.unescape_escape_self]
    refine ⟨hself, ?_, ?_⟩
    · rw [hlower, hwritten, Delimiters.unescape_escape]
      simp only [Delimiters.escapes_quotes]
    · rw [hlower, ← hself, hread, hself, hwritten, Delimiters.slashed_escape]
      simp only [List.mem_filter, decide_eq_true_eq, and_imp]
      refine forall₂_congr fun c _ => ⟨fun h hc => (h (Or.inr hc)).2 (Or.inr hc), ?_⟩
      intro h hc
      refine ⟨fun _ => hc, fun _ => ?_⟩
      rcases hc with rfl | hc
      · exact Or.inl rfl
      · exact h hc

/-! ## A bracket with an escape, and a text without brackets -/

def roundBrackets : Delimiters := ⟨'(', ')'⟩

def escapedBracket : Source := .ofString "%q(\\))"

def escapedBracketContent : Tree := .clean "string_content" none 3 5 []

def escapedBracketLiteral : Tree := .clean "string" none 0 6 [escapedBracketContent]

/-- The literal is written for a closing bracket and is lowered to a backslash and a bracket. -/
theorem escaped_bracket_keeps_backslash :
    escapedBracketLiteral.kind = "string" ∧
    ['%', 'q'] <+: (escapedBracket.text escapedBracketLiteral.label).toList ∧
    escapedBracketLiteral.parts = [escapedBracketContent] ∧
    escapedBracketContent.kind = "string_content" ∧
    (escapedBracket.text escapedBracketContent.label).toList = roundBrackets.escape [')'] ∧
    lower escapedBracket escapedBracketLiteral = .string "\\)" ∧
    lower escapedBracket escapedBracketLiteral ≠ .string ")" := by
  have hlower : lower escapedBracket escapedBracketLiteral = .string "\\)" :=
    (lower_of_stringChars? rfl).2 (by decide +kernel)
  refine ⟨rfl, by decide +kernel, rfl, rfl, by decide +kernel, hlower, ?_⟩
  rw [hlower]
  simp

def squareBrackets : Delimiters := ⟨'[', ']'⟩

def bracketedQuote : Source := .ofString "%q[it's \\\\ so]"

def bracketedContent : Tree := .clean "string_content" none 3 13 []

def bracketedLiteral : Tree := .clean "string" none 0 14 [bracketedContent]

theorem percent_text_decodes_iff_bracketedQuote :
    lower bracketedQuote bracketedLiteral = .string "it's \\ so" := by
  have hparts : bracketedLiteral.parts = [bracketedContent] := rfl
  obtain ⟨-, hescaped⟩ := percent_text_decodes_iff bracketedQuote squareBrackets rfl
    (by decide +kernel) hparts rfl
  obtain ⟨-, -, hlower⟩ := hescaped "it's \\ so".toList (by decide +kernel)
  have hfree : '[' ∉ "it's \\ so".toList ∧ ']' ∉ "it's \\ so".toList := by decide
  refine hlower.2 fun c hc hdelimiter => ?_
  rcases hdelimiter with rfl | rfl
  · exact absurd hc hfree.1
  · exact absurd hc hfree.2

end ModelSurvey.Syntax
