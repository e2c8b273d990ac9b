import ModelSurvey.Proofs.Syntax.Nodes
import ModelSurvey.Proofs.Text.Numerals
import ModelSurvey.Syntax.Lower
import ModelSurvey.Value.Evaluate

/-! Double-quoted text. The ways to write a text, as runs that stand for themselves and as escapes,
are a relation between the parts of a literal and the characters that they spell. A literal in
double quotes is lowered to the string that it spells, adjacent literals to what theirs make up
together, and one part of any other kind leaves a literal, and every chain it is in, without a
value. -/
namespace ModelSurvey.Syntax
set_option autoImplicit false
open Text

/-! ## Escapes -/

/-- The control characters and the blank that have an escape of their own. -/
def namedEscapes : List (Char × Char) :=
  [('n', '\n'), ('t', '\t'), ('r', '\r'), ('s', ' '), ('0', '\x00'), ('e', '\x1b'), ('a', '\x07'),
    ('b', '\x08'), ('f', '\x0c'), ('v', '\x0b')]

/-- Whether a backslash gives a character another meaning than its own. -/
def IsSpecial (c : Char) : Prop :=
  c ∈ namedEscapes.map Prod.fst ∨ c = 'u' ∨ c = 'x' ∨ c = '\n' ∨ '0' ≤ c ∧ c ≤ '7'

/-- The text between the braces of an escape, with the characters it names by their code points in
hexadecimal. -/
inductive CodePoints : List Char → List Char → Prop where
  | last {ds : List Char} {c : Char} (h : Numeral 16 ds c.toNat) : CodePoints ds [c]
  | cons {ds gap rest cs : List Char} {c : Char} (h : Numeral 16 ds c.toNat) (hgap : gap ≠ [])
    (hblank : ∀ g ∈ gap, isBlank g = true) (hrest : CodePoints rest cs) :
    CodePoints (ds ++ (gap ++ rest)) (c :: cs)

/-- An escape with the characters it stands for: one, several between braces, or none where a line
is continued. -/
inductive Escape : List Char → List Char → Prop where
  | named {c k : Char} (h : (c, k) ∈ namedEscapes) : Escape ['\\', c] [k]
  | braced {text cs : List Char} (h : CodePoints text cs) :
    Escape ('\\' :: 'u' :: '\x7b' :: (text ++ ['\x7d'])) cs
  | codePoint {ds : List Char} {c : Char} (h : Numeral 16 ds c.toNat) (hlength : ds.length = 4) :
    Escape ('\\' :: 'u' :: ds) [c]
  | hexadecimal {ds : List Char} {c : Char} (h : Numeral 16 ds c.toNat) (hlength : ds.length ≤ 2)
    (hascii : c.toNat < 128) : Escape ('\\' :: 'x' :: ds) [c]
  | octal {ds : List Char} {c : Char} (h : Numeral 8 ds c.toNat) (hlength : ds.length ≤ 3)
    (hascii : c.toNat < 128) : Escape ('\\' :: ds) [c]
  | itself {c : Char} (h : ¬IsSpecial c) : Escape ['\\', c] [c]
  | lineBreak : Escape ['\\', '\n'] []

/-! ## Code points -/

variable {ds text cs : List Char} {c : Char}

theorem scalar?_toNat (c : Char) : scalar? c.toNat = some c := by
  have hvalid : c.toNat.isValidChar := c.valid
  rw [scalar?, if_pos hvalid, Char.ofNat_toNat]

theorem scalarIn?_of_numeral {base : Nat} (hbase : base ≤ 16) (h : Numeral base ds c.toNat) :
    scalarIn? base ds = some c := by
  rw [scalarIn?, h.plusNumeral? hbase, Option.bind_some, scalar?_toNat]

namespace CodePoints

theorem filterMap_words (h : CodePoints text cs) :
    (words text).filterMap (scalarIn? 16) = cs := by
  induction h with
  | last h =>
    rw [words_of_not_blank h.1 (h.isBlank (Nat.le_refl 16)),
      List.filterMap_cons_some (scalarIn?_of_numeral (Nat.le_refl 16) h)]
    rfl
  | @cons ds gap rest cs c h hgap hblank _ ih =>
    obtain ⟨g, r, rfl⟩ := List.exists_cons_of_ne_nil hgap
    obtain ⟨hg, hr⟩ := List.forall_mem_cons.1 hblank
    rw [List.cons_append, words_append_of_blank ds (r ++ rest) hg, words_of_blank hr,
      words_of_not_blank h.1 (h.isBlank (Nat.le_refl 16)), List.singleton_append,
      List.filterMap_cons_some (scalarIn?_of_numeral (Nat.le_refl 16) h), ih]

theorem isAlphanum_or_isBlank (h : CodePoints text cs) :
    ∀ a ∈ text, a.isAlphanum = true ∨ isBlank a = true := by
  induction h with
  | last h => exact fun a ha => Or.inl (h.isAlphanum (Nat.le_refl 16) a ha)
  | cons h _ hblank _ ih =>
    intro a ha
    rcases List.mem_append.1 ha with ha | ha
    · exact Or.inl (h.isAlphanum (Nat.le_refl 16) a ha)
    · rcases List.mem_append.1 ha with ha | ha
      · exact Or.inr (hblank a ha)
      · exact ih a ha

theorem not_mem (h : CodePoints text cs) {b : Char} (hletter : b.isAlphanum = false)
    (hblank : isBlank b = false) : b ∉ text := by
  intro hb
  rcases h.isAlphanum_or_isBlank b hb with hb | hb
  · rw [hletter] at hb
    cases hb
  · rw [hblank] at hb
    cases hb

end CodePoints

theorem dropWhile_of_not_mem {b : Char} {l : List Char} (h : b ∉ l) :
    l.dropWhile (· == b) = l := by
  cases l with
  | nil => rfl
  | cons a r =>
    have ha : a ≠ b := Ne.symm (List.ne_of_not_mem_cons h)
    exact List.dropWhile_cons_of_neg (by simpa using ha)

theorem codePoints_bare (h : CodePoints text cs) : codePoints text = cs := by
  have hopen : '\x7b' ∉ text := h.not_mem (by decide) (by decide)
  have hclose : '\x7d' ∉ text.reverse := mt List.mem_reverse.1 (h.not_mem (by decide) (by decide))
  rw [codePoints, dropWhile_of_not_mem hopen, dropWhile_of_not_mem hclose, List.reverse_reverse,
    h.filterMap_words]

theorem codePoints_braced (h : CodePoints text cs) :
    codePoints ('\x7b' :: (text ++ ['\x7d'])) = cs := by
  have hopen : '\x7b' ∉ text ++ ['\x7d'] := by
    rw [List.mem_append, not_or]
    exact ⟨h.not_mem (by decide) (by decide), by decide⟩
  have hclose : '\x7d' ∉ text.reverse := mt List.mem_reverse.1 (h.not_mem (by decide) (by decide))
  rw [codePoints, List.dropWhile_cons_of_pos rfl, dropWhile_of_not_mem hopen, List.reverse_append,
    List.reverse_singleton, List.singleton_append, List.dropWhile_cons_of_pos rfl,
    dropWhile_of_not_mem hclose, List.reverse_reverse, h.filterMap_words]

/-! ## Escapes that are read -/

theorem unescape_named {c k : Char} (h : (c, k) ∈ namedEscapes) : unescape ['\\', c] = [k] := by
  simp only [namedEscapes, List.mem_cons, Prod.mk.injEq, List.not_mem_nil, or_false] at h
  rcases h with ⟨rfl, rfl⟩ | ⟨rfl, rfl⟩ | ⟨rfl, rfl⟩ | ⟨rfl, rfl⟩ | ⟨rfl, rfl⟩ | ⟨rfl, rfl⟩ |
    ⟨rfl, rfl⟩ | ⟨rfl, rfl⟩ | ⟨rfl, rfl⟩ | ⟨rfl, rfl⟩ <;> rfl

theorem namedEscape?_of_isDigit (h : c.isDigit = true) : namedEscape? c = none := by
  unfold namedEscape?
  split <;> first | rfl | exact absurd h (by decide)

theorem unescape_octal (h : Numeral 8 ds c.toNat) : unescape ('\\' :: ds) = [c] := by
  have hscalar := scalarIn?_of_numeral (by decide) h
  obtain ⟨d, r, rfl⟩ := List.exists_cons_of_ne_nil h.1
  have hd := h.isDigit (by decide) d (List.mem_cons_self ..)
  have hoctal := h.isSome_digit? (by decide) d (List.mem_cons_self ..)
  have hne : ∀ b : Char, b.isDigit = false → d ≠ b := by
    rintro b hb rfl
    rw [hd] at hb
    cases hb
  show escaped d r = [c]
  rw [escaped, namedEscape?_of_isDigit hd]
  dsimp only
  rw [if_neg (hne '\n' rfl), if_neg (hne 'u' rfl), if_neg (hne 'x' rfl), if_pos hoctal, hscalar,
    Option.toList_some]

theorem namedEscape?_of_not_isSpecial (h : ¬IsSpecial c) : namedEscape? c = none := by
  unfold namedEscape?
  split <;> first | rfl | exact absurd (Or.inl (by decide)) h

theorem unescape_itself (h : ¬IsSpecial c) : unescape ['\\', c] = [c] := by
  have hnamed := namedEscape?_of_not_isSpecial h
  obtain ⟨-, hu, hx, hline, hoctal⟩ : _ ∧ _ := by
    simpa only [IsSpecial, not_or] using h
  show escaped c [] = [c]
  rw [escaped, hnamed]
  dsimp only
  rw [if_neg hline, if_neg hu, if_neg hx, if_neg (mt digit?_octal hoctal)]

theorem unescape_of_escape {sequence : List Char} (h : Escape sequence cs) :
    unescape sequence = cs := by
  cases h with
  | named h => exact unescape_named h
  | braced h => exact codePoints_braced h
  | codePoint h hlength => exact codePoints_bare (.last h)
  | @hexadecimal ds c h hlength hascii =>
    show (scalarIn? 16 ds).toList = [c]
    rw [scalarIn?_of_numeral (Nat.le_refl 16) h, Option.toList_some]
  | octal h hlength hascii => exact unescape_octal h
  | itself h => exact unescape_itself h
  | lineBreak => rfl

/-! ## Literals -/

variable (s : Source)

/-- The parts of a literal with the characters that they spell. Quotation marks and comments are no
parts, a run of content stands for itself. -/
inductive SpellsText : List Tree → List Char → Prop where
  | nil : SpellsText [] []
  | skip {t : Tree} {ts : List Tree} {cs : List Char} (hpart : t.isPart = false)
    (h : SpellsText ts cs) : SpellsText (t :: ts) cs
  | content {t : Tree} {ts : List Tree} {cs : List Char} (hpart : t.isPart = true)
    (hkind : t.kind = "string_content") (h : SpellsText ts cs) :
    SpellsText (t :: ts) ((s.text t.label).toList ++ cs)
  | escape {t : Tree} {ts : List Tree} {cs ds : List Char} (hpart : t.isPart = true)
    (hkind : t.kind = "escape_sequence") (hescape : Escape (s.text t.label).toList ds)
    (h : SpellsText ts cs) : SpellsText (t :: ts) (ds ++ cs)

variable {s}

theorem concatPieces?_cons {f : Tree → Option (List Char)} {t : Tree} {ts : List Tree}
    (ht : f t = some ds) (hts : concatPieces? f ts = some cs) :
    concatPieces? f (t :: ts) = some (ds ++ cs) := by
  rw [concatPieces?, ht, Option.bind_some, hts, Option.map_some]

theorem concatPieces?_of_none {f : Tree → Option (List Char)} {t : Tree} {ts : List Tree}
    (ht : t ∈ ts) (hnone : f t = none) : concatPieces? f ts = none := by
  induction ts with
  | nil => cases ht
  | cons u r ih =>
    rw [concatPieces?]
    rcases List.mem_cons.1 ht with rfl | ht
    · rw [hnone, Option.bind_none]
    · rw [ih ht]
      cases f u <;> rfl

theorem concatPieces?_of_spellsText {ts : List Tree} (h : SpellsText s ts cs) :
    concatPieces? (pieceText? s false) (ts.filter Tree.isPart) = some cs := by
  induction h with
  | nil => rfl
  | skip hpart _ ih => rw [List.filter_cons_of_neg (by simp [hpart]), ih]
  | content hpart hkind _ ih =>
    rw [List.filter_cons_of_pos hpart]
    exact concatPieces?_cons (by rw [pieceText?, if_pos hkind]; rfl) ih
  | @escape t ts cs ds hpart hkind hescape _ ih =>
    have hcontent : t.kind ≠ "string_content" := by
      rw [hkind]
      decide
    rw [List.filter_cons_of_pos hpart]
    refine concatPieces?_cons ?_ ih
    rw [pieceText?, if_neg hcontent, if_pos hkind, unescape_of_escape hescape]

theorem stringChars?_of_not_isPlainWord {t : Tree} (hword : isPlainWord t = false) :
    stringChars? s t =
      concatPieces? (pieceText? s (isSingleQuoted (s.text t.label).toList)) t.parts := by
  simp only [stringChars?, hword, Bool.false_eq_true, if_false]

theorem isPlainWord_of_kind {t : Tree} (hkind : t.kind = "string" ∨ t.kind = "delimited_symbol") :
    isPlainWord t = false := by
  rw [isPlainWord]
  rcases hkind with h | h <;> rw [h] <;> rfl

theorem stringChars?_of_spellsText {t : Tree} (hkind : t.kind = "string")
    (hquote : (s.text t.label).toList.head? = some '"') (h : SpellsText s t.children cs) :
    stringChars? s t = some cs := by
  obtain ⟨rest, hquote⟩ := List.head?_eq_some_iff.1 hquote
  rw [stringChars?_of_not_isPlainWord (isPlainWord_of_kind (Or.inl hkind)), hquote]
  exact concatPieces?_of_spellsText h

theorem stringChars?_of_other_part {t u : Tree} (hu : u ∈ t.parts)
    (hcontent : u.kind ≠ "string_content") (hescape : u.kind ≠ "escape_sequence") :
    stringChars? s t = none := by
  obtain ⟨hchild, hpart⟩ := List.mem_filter.1 hu
  have hnamed : t.children.any (·.label.named) = true :=
    List.any_eq_true.2 ⟨u, hchild, (Bool.and_eq_true_iff.1 hpart).1⟩
  have hword : isPlainWord t = false := by
    rw [isPlainWord, hnamed, Bool.not_true, Bool.and_false]
  have hpiece (single : Bool) : pieceText? s single u = none := by
    rw [pieceText?, if_neg hcontent, if_neg hescape]
  rw [stringChars?_of_not_isPlainWord hword]
  exact concatPieces?_of_none hu (hpiece _)

/-! ## Values -/

theorem lower_of_stringChars? {t : Tree} {text : String} (hkind : t.kind = "string") :
    lower s t = .string text ↔ stringChars? s t = some text.toList := by
  obtain ⟨a, cs⟩ := t
  have hform : Form.ofKind a.kind = .string := congrArg Form.ofKind hkind
  simp only [lower, hform]
  cases stringChars? s (.node a cs) with
  | none => simp
  | some chars =>
    rw [Node.string.injEq, Option.some.injEq, ← String.toList_inj, String.toList_ofList]

theorem lower_of_chainedChars? {t : Tree} {chars : List Char} (hkind : t.kind = "chained_string")
    (h : chainedChars? s t.parts = some chars) : lower s t = .string (String.ofList chars) := by
  obtain ⟨a, cs⟩ := t
  have hform : Form.ofKind a.kind = .chainedString := congrArg Form.ofKind hkind
  rw [Tree.parts, Tree.children] at h
  simp only [lower, hform, h]

theorem chainedChars?_of_forall₂ {parts : List Tree} {texts : List String}
    (h : List.Forall₂ (fun t text => t.kind = "string" ∧ lower s t = .string text) parts texts) :
    chainedChars? s parts = some (String.join texts).toList := by
  rw [String.toList_join]
  induction h with
  | nil => rfl
  | cons ht _ ih => exact concatPieces?_cons ((lower_of_stringChars? ht.1).1 ht.2) ih

theorem evaluate_lower_of_other_part {t u : Tree}
    (hkind : t.kind ∈ ["string", "bare_string", "delimited_symbol", "bare_symbol"])
    (hu : u ∈ t.parts) (hcontent : u.kind ≠ "string_content")
    (hescape : u.kind ≠ "escape_sequence") : (lower s t).evaluate = none := by
  have hnone := stringChars?_of_other_part (s := s) hu hcontent hescape
  obtain ⟨a, cs⟩ := t
  have hform : Form.ofKind a.kind = .string ∨ Form.ofKind a.kind = .quotedSymbol := by
    have hkind : a.kind ∈ _ := hkind
    simp only [List.mem_cons, List.not_mem_nil, or_false] at hkind
    rcases hkind with h | h | h | h <;> rw [h] <;> decide
  rcases hform with hform | hform <;>
    simp only [lower, hform, hnone, Node.evaluate]

theorem evaluate_lower_of_chained_other_part {t u chain : Tree}
    (hkind : chain.kind = "chained_string") (ht : t ∈ chain.parts) (hu : u ∈ t.parts)
    (hcontent : u.kind ≠ "string_content") (hescape : u.kind ≠ "escape_sequence") :
    (lower s chain).evaluate = none := by
  have hnone : chainedChars? s chain.parts = none :=
    concatPieces?_of_none ht (stringChars?_of_other_part hu hcontent hescape)
  obtain ⟨a, cs⟩ := chain
  have hform : Form.ofKind a.kind = .chainedString := congrArg Form.ofKind hkind
  rw [Tree.parts, Tree.children] at hnone
  simp only [lower, hform, hnone, Node.evaluate]

/-- A literal in double quotes is lowered to the string that its runs and escapes spell, a chain of
literals to the strings of its parts put together. One part of any other kind, such as an
interpolation, leaves the literal and every chain with it without a value. -/
theorem double_quoted_text_decodes (s : Source) :
    (∀ (t : Tree) (text : String), t.kind = "string" →
      (s.text t.label).toList.head? = some '"' → SpellsText s t.children text.toList →
      lower s t = .string text) ∧
    (∀ (chain : Tree) (texts : List String), chain.kind = "chained_string" →
      List.Forall₂ (fun t text => t.kind = "string" ∧ lower s t = .string text) chain.parts texts →
      lower s chain = .string (String.join texts)) ∧
    (∀ t u : Tree, u ∈ t.parts → u.kind ≠ "string_content" → u.kind ≠ "escape_sequence" →
      (t.kind ∈ ["string", "bare_string", "delimited_symbol", "bare_symbol"] →
        (lower s t).evaluate = none) ∧
      ∀ chain : Tree, chain.kind = "chained_string" → t ∈ chain.parts →
        (lower s chain).evaluate = none) := by
  refine ⟨?_, ?_, ?_⟩
  · intro t text hkind hquote hspells
    exact (lower_of_stringChars? hkind).2 (stringChars?_of_spellsText hkind hquote hspells)
  · intro chain texts hkind hparts
    rw [lower_of_chainedChars? hkind (chainedChars?_of_forall₂ hparts), String.ofList_toList]
  · intro t u hu hcontent hescape
    refine ⟨fun hkind => evaluate_lower_of_other_part hkind hu hcontent hescape, ?_⟩
    intro chain hkind ht
    exact evaluate_lower_of_chained_other_part hkind ht hu hcontent hescape

/-! ## Two greetings and a blank to fill in -/

def greetings : Source :=
  .ofString "\"\\u\x7b48 69\x7d\\\n\\54 \\you\" \"\\x21\\n\" \"#\x7bx\x7d\""

/-- A literal between its quotation marks, which have no name. -/
def quoted (start stop : Nat) (parts : List Tree) : Tree :=
  let mark (n : Nat) := Tree.node ⟨"\"", false, false, false, false, none, n, n + 1⟩ []
  .clean "string" none start stop (mark start :: (parts ++ [mark (stop - 1)]))

def escapedGreeting : Tree :=
  quoted 0 21 [
    .clean "escape_sequence" none 1 10 [],
    .clean "escape_sequence" none 10 12 [],
    .clean "escape_sequence" none 12 15 [],
    .clean "string_content" none 15 16 [],
    .clean "escape_sequence" none 16 18 [],
    .clean "string_content" none 18 20 []]

def shortGreeting : Tree :=
  quoted 22 30 [.clean "escape_sequence" none 23 27 [], .clean "escape_sequence" none 27 29 []]

def interpolated : Tree := quoted 31 37 [.clean "interpolation" none 32 36 []]

theorem spellsText_escapedGreeting :
    SpellsText greetings escapedGreeting.children "Hi, you".toList := by
  have hletters : Escape ['\\', 'u', '\x7b', '4', '8', ' ', '6', '9', '\x7d'] ['H', 'i'] :=
    .braced (@CodePoints.cons ['4', '8'] [' '] ['6', '9'] ['i'] 'H'
      ⟨by decide, [4, 8], by decide, by decide⟩ (by decide) (List.forall_mem_singleton.2 rfl)
      (.last ⟨by decide, [6, 9], by decide, by decide⟩))
  have hcomma : Escape ['\\', '5', '4'] [','] :=
    .octal ⟨by decide, [5, 4], by decide, by decide⟩ (by decide) (by decide)
  have hy : Escape ['\\', 'y'] ['y'] := .itself (by simp [IsSpecial, namedEscapes])
  have htext {start stop : Nat} {sequence ds : List Char}
      (h : (greetings.text ⟨"escape_sequence", true, false, false, false, none, start, stop⟩).toList
        = sequence) (hescape : Escape sequence ds) : Escape _ ds := h ▸ hescape
  exact .skip rfl (.escape rfl rfl (htext (by decide +kernel) hletters)
    (.escape rfl rfl (htext (by decide +kernel) .lineBreak)
      (.escape rfl rfl (htext (by decide +kernel) hcomma)
        (.content rfl rfl (.escape rfl rfl (htext (by decide +kernel) hy)
          (.content rfl rfl (.skip rfl .nil)))))))

theorem double_quoted_text_decodes_greetings :
    SpellsText greetings escapedGreeting.children "Hi, you".toList ∧
    lower greetings escapedGreeting = .string "Hi, you" ∧
    lower greetings (.clean "chained_string" none 0 30 [escapedGreeting, shortGreeting]) =
      .string "Hi, you!\n" ∧
    (lower greetings interpolated).evaluate = none ∧
    (lower greetings (.clean "chained_string" none 22 37 [shortGreeting, interpolated])).evaluate =
      none := by
  obtain ⟨hliteral, hchain, hother⟩ := double_quoted_text_decodes greetings
  have hfirst : lower greetings escapedGreeting = .string "Hi, you" :=
    hliteral escapedGreeting _ rfl (by decide +kernel) spellsText_escapedGreeting
  have hsecond : lower greetings shortGreeting = .string "!\n" :=
    (lower_of_stringChars? rfl).2 (by decide +kernel)
  have hinterpolation := hother interpolated _ (List.mem_cons_self ..) (by decide) (by decide)
  exact ⟨spellsText_escapedGreeting, hfirst,
    hchain _ ["Hi, you", "!\n"] rfl (.cons ⟨rfl, hfirst⟩ (.cons ⟨rfl, hsecond⟩ .nil)),
    hinterpolation.1 (by decide),
    hinterpolation.2 _ rfl (List.mem_cons_of_mem _ (List.mem_cons_self ..))⟩

end ModelSurvey.Syntax
