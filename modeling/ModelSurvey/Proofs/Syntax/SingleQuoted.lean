import ModelSurvey.Proofs.Syntax.DoubleQuoted

/-! Single-quoted text. A backslash and a quote are written with a backslash in front; a backslash
may also stand bare where that cannot be mistaken, and all else stands for itself. However a text is
written, a literal or symbol in single quotes is lowered to it. -/
namespace ModelSurvey.Syntax
set_option autoImplicit false

variable {c : Char} {text written : List Char}

/-! ## Writing and reading -/

/-- A character that a backslash escapes in single quotes. -/
def IsEscapable (c : Char) : Prop := c = '\\' ∨ c = '\x27'

instance (c : Char) : Decidable (IsEscapable c) :=
  inferInstanceAs (Decidable (c = '\\' ∨ c = '\x27'))

/-- A text, and a way to write it in single quotes. A backslash may be left bare if it is not the
last character and neither a backslash nor a quote follows. -/
inductive SingleQuoted : List Char → List Char → Prop where
  | nil : SingleQuoted [] []
  | escape {c : Char} {text written : List Char} (hc : IsEscapable c)
    (h : SingleQuoted text written) : SingleQuoted (c :: text) ('\\' :: c :: written)
  | plain {c : Char} {text written : List Char} (hc : ¬IsEscapable c)
    (h : SingleQuoted text written) : SingleQuoted (c :: text) (c :: written)
  | bare {c : Char} {text written : List Char} (hc : ¬IsEscapable c)
    (h : SingleQuoted (c :: text) written) : SingleQuoted ('\\' :: c :: text) ('\\' :: written)

/-- The text with a backslash in front of every character that may have one. -/
def doubled (text : List Char) : List Char :=
  text.flatMap fun c => if IsEscapable c then ['\\', c] else [c]

theorem singleQuoted_doubled (text : List Char) : SingleQuoted text (doubled text) := by
  induction text with
  | nil => exact .nil
  | cons c text ih =>
    rw [doubled, List.flatMap_cons]
    split
    · rename_i hc
      exact .escape hc ih
    · rename_i hc
      exact .plain hc ih

theorem unescapeSingle_escape (hc : IsEscapable c) (r : List Char) :
    unescapeSingle ('\\' :: c :: r) = c :: unescapeSingle r := by
  rw [unescapeSingle]
  exact if_pos hc

theorem unescapeSingle_bare (hc : ¬IsEscapable c) (r : List Char) :
    unescapeSingle ('\\' :: c :: r) = '\\' :: unescapeSingle (c :: r) := by
  rw [unescapeSingle]
  exact if_neg hc

theorem unescapeSingle_plain (hc : ¬IsEscapable c) (r : List Char) :
    unescapeSingle (c :: r) = c :: unescapeSingle r := by
  rw [unescapeSingle.eq_def]
  split <;> rename_i he <;> cases he
  · exact absurd (Or.inl rfl) hc
  · rfl

/-- A character without an escape is written as it is. -/
theorem SingleQuoted.exists_cons (h : SingleQuoted (c :: text) written) (hc : ¬IsEscapable c) :
    ∃ rest, written = c :: rest := by
  generalize he : c :: text = whole at h
  cases h with
  | nil => cases he
  | escape hescapable _ =>
    cases he
    exact absurd hescapable hc
  | plain _ _ =>
    cases he
    exact ⟨_, rfl⟩
  | bare _ _ =>
    cases he
    exact absurd (Or.inl rfl) hc

theorem unescapeSingle_of_singleQuoted (h : SingleQuoted text written) :
    unescapeSingle written = text := by
  induction h with
  | nil => rw [unescapeSingle]
  | escape hc _ ih => rw [unescapeSingle_escape hc, ih]
  | plain hc _ ih => rw [unescapeSingle_plain hc, ih]
  | bare hc h ih =>
    obtain ⟨rest, rfl⟩ := h.exists_cons hc
    rw [unescapeSingle_bare hc, ih]

/-! ## Removed backslashes -/

/-- A written text, and the text without some backslashes, each directly before a backslash or a
quote that is kept. -/
inductive Unslashed : List Char → List Char → Prop where
  | nil : Unslashed [] []
  | keep {c : Char} {written text : List Char} (h : Unslashed written text) :
    Unslashed (c :: written) (c :: text)
  | drop {c : Char} {written text : List Char} (hc : IsEscapable c) (h : Unslashed written text) :
    Unslashed ('\\' :: c :: written) (c :: text)

theorem unslashed_unescapeSingle (written : List Char) :
    Unslashed written (unescapeSingle written) := by
  fun_induction unescapeSingle written with
  | case1 c r hc ih => exact .drop hc ih
  | case2 c r _ ih => exact .keep ih
  | case3 c r _ ih => exact .keep ih
  | case4 => exact .nil

theorem Unslashed.length_le (h : Unslashed written text) : text.length ≤ written.length := by
  induction h with
  | nil => exact Nat.le_refl _
  | keep _ ih => exact Nat.succ_le_succ ih
  | drop _ _ ih => exact Nat.succ_le_succ (Nat.le_succ_of_le ih)

/-- Whether some backslash stands directly before a backslash or a quote. -/
def HasEscape (written : List Char) : Prop := ∃ c, IsEscapable c ∧ ['\\', c] <:+: written

theorem hasEscape_cons_iff {a : Char} {r : List Char} :
    HasEscape (a :: r) ↔ (a = '\\' ∧ ∃ c ∈ r.head?, IsEscapable c) ∨ HasEscape r := by
  have hstart (c : Char) : ['\\', c] <+: a :: r ↔ a = '\\' ∧ c ∈ r.head? := by
    cases r <;> simp [List.cons_prefix_cons, eq_comm]
  simp only [HasEscape, List.infix_cons_iff, hstart, and_or_left, exists_or]
  refine or_congr_left ⟨fun ⟨c, hc, ha, hr⟩ => ⟨ha, c, hr, hc⟩, ?_⟩
  exact fun ⟨ha, c, hr, hc⟩ => ⟨c, hc, ha, hr⟩

theorem unescapeSingle_eq_self_iff (written : List Char) :
    unescapeSingle written = written ↔ ¬HasEscape written := by
  fun_induction unescapeSingle written with
  | case1 c r hc ih =>
    have hlength := (unslashed_unescapeSingle r).length_le
    have hescape : HasEscape ('\\' :: c :: r) := hasEscape_cons_iff.2 (.inl ⟨rfl, c, rfl, hc⟩)
    refine iff_of_false (fun he => ?_) (not_not_intro hescape)
    have := congrArg List.length he
    simp only [List.length_cons] at this
    omega
  | case2 c r hc ih =>
    rw [List.cons_inj_right, ih, hasEscape_cons_iff (a := '\\')]
    refine not_congr ⟨Or.inr, ?_⟩
    rintro (⟨-, d, hd, hescapable⟩ | h)
    · cases hd
      exact absurd hescapable hc
    · exact h
  | case3 c r hnot ih =>
    rw [List.cons_inj_right, ih, hasEscape_cons_iff (a := c)]
    refine not_congr ⟨Or.inr, ?_⟩
    rintro (⟨rfl, d, hd, -⟩ | h)
    · obtain ⟨rest, rfl⟩ := List.head?_eq_some_iff.1 hd
      exact (hnot d rest rfl rfl).elim
    · exact h
  | case4 => simp [HasEscape]

/-! ## Literals and symbols -/

variable {s : Source}

/-- Parts of content, each with a text that it is a way to write. -/
abbrev Spelled (s : Source) (parts : List Tree) (texts : List (List Char)) : Prop :=
  List.Forall₂ (fun t text => t.kind = "string_content" ∧ SingleQuoted text (s.text t.label).toList)
    parts texts

theorem concatPieces?_of_spelled {parts : List Tree} {texts : List (List Char)}
    (h : Spelled s parts texts) :
    concatPieces? (pieceText? s true) parts = some texts.flatten := by
  induction h with
  | nil => rfl
  | cons ht _ ih =>
    refine concatPieces?_cons ?_ ih
    rw [pieceText?, if_pos ht.1, if_pos rfl, unescapeSingle_of_singleQuoted ht.2]

theorem stringChars?_of_spelled {t : Tree} {texts : List (List Char)}
    (hkind : t.kind = "string" ∨ t.kind = "delimited_symbol")
    (hquote : isSingleQuoted (s.text t.label).toList = true) (h : Spelled s t.parts texts) :
    stringChars? s t = some texts.flatten := by
  rw [stringChars?_of_not_isPlainWord (isPlainWord_of_kind hkind), hquote]
  exact concatPieces?_of_spelled h

theorem lower_of_symbolChars? {t : Tree} {chars : List Char} (hkind : t.kind = "delimited_symbol")
    (h : stringChars? s t = some chars) : lower s t = .symbol (String.ofList chars) := by
  obtain ⟨a, cs⟩ := t
  have hform : Form.ofKind a.kind = .quotedSymbol := congrArg Form.ofKind hkind
  simp only [lower, hform, h]

/-- Reading single-quoted text undoes writing it, whether every backslash is doubled or some are
left bare where that cannot be mistaken: a literal or a symbol in single quotes is lowered to the
text its content spells. Of any text at all, reading removes backslashes only, each directly before
a backslash or a quote that is kept, and it removes none exactly if none stands there. -/
theorem single_quoted_text_decodes (s : Source) :
    (∀ text, SingleQuoted text (doubled text)) ∧
    (∀ text written, SingleQuoted text written → unescapeSingle written = text) ∧
    (∀ (t : Tree) (texts : List (List Char)), Spelled s t.parts texts →
      (t.kind = "string" → ['\x27'] <+: (s.text t.label).toList →
        lower s t = .string (String.ofList texts.flatten)) ∧
      (t.kind = "delimited_symbol" → [':', '\x27'] <+: (s.text t.label).toList →
        lower s t = .symbol (String.ofList texts.flatten))) ∧
    ∀ written, Unslashed written (unescapeSingle written) ∧
      (unescapeSingle written = written ↔ ¬HasEscape written) := by
  refine ⟨singleQuoted_doubled, fun _ _ => unescapeSingle_of_singleQuoted, ?_,
    fun written => ⟨unslashed_unescapeSingle written, unescapeSingle_eq_self_iff written⟩⟩
  intro t texts hspelled
  constructor
  · rintro hkind ⟨rest, hquote⟩
    refine (lower_of_stringChars? hkind).2 ?_
    rw [String.toList_ofList]
    exact stringChars?_of_spelled (.inl hkind) (by rw [← hquote]; rfl) hspelled
  · rintro hkind ⟨rest, hquote⟩
    exact lower_of_symbolChars? hkind
      (stringChars?_of_spelled (.inr hkind) (by rw [← hquote]; rfl) hspelled)

/-! ## A literal with every escape and a symbol of backslashes -/

/-- The literal writes a quote and a backslash with their escapes and leaves a backslash bare. -/
def apostrophes : Source := .ofString "'it\\'s \\\\ \\n' :'\\\\\\''"

def apostropheLiteral : Tree :=
  .clean "string" none 0 13 [.clean "string_content" none 1 12 []]

def backslashSymbol : Tree :=
  .clean "delimited_symbol" none 14 21 [.clean "string_content" none 16 20 []]

theorem single_quoted_text_decodes_apostrophes :
    lower apostrophes apostropheLiteral = .string "it's \\ \\n" ∧
    lower apostrophes backslashSymbol = .symbol "\\'" := by
  obtain ⟨hdoubled, -, hlower, -⟩ := single_quoted_text_decodes apostrophes
  have hbare : SingleQuoted ['\\', 'n'] ['\\', 'n'] :=
    .bare (by decide) (.plain (by decide) .nil)
  have hliteral : SingleQuoted "it's \\ \\n".toList "it\\'s \\\\ \\n".toList :=
    .plain (by decide) (.plain (by decide) (.escape (by decide) (.plain (by decide)
      (.plain (by decide) (.escape (by decide) (.plain (by decide) hbare))))))
  have hsymbol := hdoubled ['\\', '\x27']
  have htext {kind : String} {start stop : Nat} {written text : List Char}
      (h : (apostrophes.text ⟨kind, true, false, false, false, none, start, stop⟩).toList = written)
      (hspells : SingleQuoted text written) : SingleQuoted text _ := h ▸ hspells
  exact ⟨(hlower apostropheLiteral ["it's \\ \\n".toList]
      (.cons ⟨rfl, htext (by decide +kernel) hliteral⟩ .nil)).1 rfl (by decide +kernel),
    (hlower backslashSymbol [['\\', '\x27']]
      (.cons ⟨rfl, htext (by decide +kernel) hsymbol⟩ .nil)).2 rfl (by decide +kernel)⟩

end ModelSurvey.Syntax
