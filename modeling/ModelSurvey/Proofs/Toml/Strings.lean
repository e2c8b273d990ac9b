import ModelSurvey.Toml.Quoted

/-! Written strings are read back, in each of the four forms. Between double quotes a text is written
character by character, so one lemma for a character carries the text. In a form of several lines up
to two quotes may stand bare, and whether a quote is text or belongs to the closing three shows only
behind them: both lemmas there have the bare quotes before the text as a parameter. -/
namespace ModelSurvey.Toml
set_option autoImplicit false
open Text

variable {c q : Char} {cs r w : List Char} {many : Bool} {run : Nat}

/-! ## One character -/

/-- A character, and a way to write it between double quotes, on one line or on several. -/
inductive Written (many : Bool) : Char → List Char → Prop where
  | escape {c e : Char} (h : escapeValue? e = some c) : Written many c ['\\', e]
  | codePoint {c a₁ a₂ a₃ a₄ : Char} (h : hexScalar? [a₁, a₂, a₃, a₄] = some c) :
    Written many c ['\\', 'u', a₁, a₂, a₃, a₄]
  | itself {c : Char} (hquote : c ≠ '"') (hslash : c ≠ '\\')
    (h : isLineChar c = true ∨ many = true ∧ c = '\n') : Written many c [c]

theorem hexScalar?_upperHex4 :
    ∀ n < 128, (upperHex4 n).length = 4 ∧ hexScalar? (upperHex4 n) = some (Char.ofNat n) := by
  decide +kernel

theorem isLineChar_of_not_needsEscape (h : needsEscape c = false) (hline : c ≠ '\n') :
    isLineChar c = true := by
  simp only [needsEscape, isLineChar] at h ⊢
  grind

theorem ne_return (h : isLineChar c = true ∨ c = '\n') : c ≠ '\r' := by
  rintro rfl
  simp [isLineChar] at h

theorem writeChar_written (hquote : c ≠ '"') : Written many c (writeChar many c) := by
  fun_cases writeChar many c with
  | case1 hc | case2 _ hc | case4 _ _ hc | case5 _ _ _ hc | case6 _ _ _ _ hc
  | case7 _ _ _ _ _ hc => exact .escape (congrArg some hc.symm)
  | case3 _ _ hc hmany =>
    subst hc
    exact .itself hquote (by decide) (.inr ⟨hmany, rfl⟩)
  | case8 _ _ _ _ _ _ hc =>
    have hascii : c.toNat < 128 := by
      simp only [needsEscape, Bool.and_eq_true, Bool.or_eq_true, decide_eq_true_eq,
        beq_iff_eq] at hc
      omega
    obtain ⟨hlength, hvalue⟩ := hexScalar?_upperHex4 c.toNat hascii
    rw [Char.ofNat_toNat] at hvalue
    match upperHex4 c.toNat, hlength, hvalue with
    | [a₁, a₂, a₃, a₄], _, hvalue => exact .codePoint hvalue
  | case9 _ _ hline _ _ hslash hc =>
    exact .itself hquote hslash
      (.inl (isLineChar_of_not_needsEscape (Bool.eq_false_iff.2 hc) hline))

/-- A character that is not left as a bare quote has its own written form, and what follows is
written as if no quote stood before. -/
theorem exists_writeBasic_cons (h : c ≠ '"' ∨ many = false ∨ 2 ≤ run) (cs : List Char) :
    ∃ w, Written many c w ∧ writeBasic many run (c :: cs) = w ++ writeBasic many 0 cs := by
  by_cases hc : c = '"'
  · subst hc
    have hbare : (many && decide (run < 2)) = false := by grind
    exact ⟨['\\', '"'], .escape rfl, by rw [writeBasic, hbare]; rfl⟩
  · exact ⟨_, writeChar_written hc, by rw [writeBasic]; exact hc⟩

theorem writeBasic_quote (h : run < 2) (cs : List Char) :
    writeBasic true run ('"' :: cs) = '"' :: writeBasic true (run + 1) cs := by
  rw [writeBasic, if_pos (by simp [h])]

/-- What stands behind the backslash of an escape announces no code point and ends no line. -/
theorem escapeValue?_eq_some {e : Char} (h : escapeValue? e = some c) :
    e ≠ 'u' ∧ e ≠ 'U' ∧ isSpaceOrTab e = false ∧ e ≠ '\n' ∧ e ≠ '\r' := by
  unfold escapeValue? at h
  split at h <;> first | decide | cases h

theorem Written.exists_cons (h : Written many c w) :
    ∃ a l, w = a :: l ∧ a ≠ '"' := by
  cases h with
  | escape _ => exact ⟨_, _, rfl, by decide⟩
  | codePoint _ => exact ⟨_, _, rfl, by decide⟩
  | itself hquote => exact ⟨_, _, rfl, hquote⟩

/-! ## One line -/

theorem Written.readBasic_append (h : Written false c w) (r : List Char) :
    readBasic (w ++ r) = withChar (some c) (readBasic r) := by
  cases h with
  | @escape e he =>
    obtain ⟨hu, hU, -⟩ := escapeValue?_eq_some he
    show readBasic ('\\' :: e :: r) = _
    rw [readBasic, he]
    · exact fun _ _ _ _ _ h => absurd h hu
    · exact fun _ _ _ _ _ _ _ _ _ h => absurd h hU
  | @codePoint a₁ a₂ a₃ a₄ hvalue =>
    show readBasic ('\\' :: 'u' :: a₁ :: a₂ :: a₃ :: a₄ :: r) = _
    rw [readBasic, hvalue]
  | itself hquote hslash hline =>
    have hc : isLineChar c = true := hline.resolve_right fun h => Bool.false_ne_true h.1
    rw [List.singleton_append, readBasic, if_pos hc] <;> grind

theorem readBasic_writeBasic (run : Nat) (cs r : List Char) :
    readBasic (writeBasic false run cs ++ '"' :: r) = some (cs, r) := by
  induction cs generalizing run with
  | nil => rw [writeBasic, List.nil_append, readBasic]
  | cons c cs ih =>
    obtain ⟨w, hw, he⟩ : ∃ w, Written false c w ∧ writeBasic false run (c :: cs) = _ :=
      exists_writeBasic_cons (.inr (.inl rfl)) cs
    rw [he, List.append_assoc, hw.readBasic_append, ih]
    rfl

theorem readLiteral_append (hline : ∀ c ∈ cs, isLineChar c = true) (hquote : '\x27' ∉ cs)
    (r : List Char) : readLiteral (cs ++ '\x27' :: r) = some (cs, r) := by
  induction cs with
  | nil => rw [List.nil_append, readLiteral, if_pos rfl]
  | cons c cs ih =>
    obtain ⟨hc, hcs⟩ := List.forall_mem_cons.1 hline
    obtain ⟨hne, hquote⟩ := List.ne_and_not_mem_of_not_mem_cons hquote
    rw [List.cons_append, readLiteral, if_neg hne.symm, if_pos hc, ih hcs hquote]
    rfl

/-! ## Several lines -/

/-- A reader that takes a quote for text unless two more follow, ends at three, and takes a line end
for text. -/
structure ReadsLines (q : Char) (f : List Char → Option (List Char × List Char)) : Prop where
  quote : ∀ r, ¬[q, q] <+: r → f (q :: r) = withChar (some q) (f r)
  close : ∀ r, f (q :: q :: q :: r) = some (closeMany q r)
  newline : ∀ r, f ('\n' :: r) = withChar (some '\n') (f r)
  lineEnd : ∀ r, f ('\r' :: '\n' :: r) = withChar (some '\n') (f r)

theorem closeMany_replicate (hrun : run ≤ 2) (hr : ∀ a ∈ r.head?, a ≠ q) :
    closeMany q (List.replicate run q ++ r) = (List.replicate run q, r) := by
  match run, r, hrun with
  | 0, [], _ | 1, [], _ | 2, _, _ => simp [closeMany, List.replicate]
  | 0, [a], _ => simp [closeMany, hr a rfl]
  | 0, a :: b :: r, _ => simp [closeMany, hr a rfl]
  | 1, a :: r, _ => simp [closeMany, List.replicate, hr a rfl]

namespace ReadsLines

variable {f : List Char → Option (List Char × List Char)} {a : Char}

theorem read_bare (hf : ReadsLines q f) (hrun : run ≤ 2) (ha : a ≠ q) (r : List Char) :
    f (List.replicate run q ++ a :: r) =
      (f (a :: r)).map fun m => (List.replicate run q ++ m.1, m.2) := by
  match run, hrun with
  | 0, _ => simp
  | 1, _ =>
    rw [List.replicate_one, List.singleton_append, hf.quote _ (by simp [ha.symm])]
    rfl
  | 2, _ =>
    have hone := hf.quote (a :: r) (by simp [ha.symm])
    have htwo := hf.quote (q :: a :: r) (by simp [ha.symm])
    show f (q :: q :: a :: r) = _
    rw [htwo, hone]
    cases f (a :: r) <;> rfl

theorem read_close (hf : ReadsLines q f) (hrun : run ≤ 2) (hr : ∀ a ∈ r.head?, a ≠ q) :
    f (List.replicate run q ++ q :: q :: q :: r) = some (List.replicate run q, r) := by
  have hswap : List.replicate run q ++ (List.replicate 3 q ++ r) =
      List.replicate 3 q ++ (List.replicate run q ++ r) := by
    rw [← List.append_assoc, List.replicate_append_replicate, Nat.add_comm,
      ← List.replicate_append_replicate, List.append_assoc]
  exact (congrArg f hswap).trans ((hf.close _).trans (congrArg some (closeMany_replicate hrun hr)))

/-- A line end at the very start would be read as text, which has none unless one leads in. -/
theorem read_leadIn (hf : ReadsLines q f) (h : f w = some (cs, r)) :
    f (dropLineEnd (leadIn cs ++ w)) = some (cs, r) := by
  have hstart {l : List Char} (hl : withChar (some '\n') (f l) = some (cs, r)) : '\n' ∈ cs := by
    obtain ⟨m, -, he⟩ := Option.map_eq_some_iff.1 hl
    cases he
    exact List.mem_cons_self ..
  rw [leadIn]
  split
  · exact h
  · rename_i hline
    rw [List.contains_eq_mem, decide_eq_true_eq] at hline
    rw [List.nil_append]
    fun_cases dropLineEnd w with
    | case1 l => exact absurd (hstart ((hf.newline l).symm.trans h)) hline
    | case2 l => exact absurd (hstart ((hf.lineEnd l).symm.trans h)) hline
    | case3 => exact h

end ReadsLines

theorem ne_cons_cons_of_not_prefix (h : ¬[q, q] <+: r) (l : List Char) : r ≠ q :: q :: l := by
  rintro rfl
  exact h ⟨l, rfl⟩

theorem readsLines_readManyBasic : ReadsLines '"' (readManyBasic false) where
  quote r h := by
    have hne := ne_cons_cons_of_not_prefix h
    rw [readManyBasic, if_neg (by decide), if_pos (by decide)] <;> grind
  close r := by rw [readManyBasic]
  newline r := by rw [readManyBasic, if_neg (by decide), if_pos (by decide)] <;> simp
  lineEnd r := by rw [readManyBasic, if_neg (by decide)]

theorem readsLines_readManyLiteral : ReadsLines '\x27' readManyLiteral where
  quote r h := by
    have hne := ne_cons_cons_of_not_prefix h
    rw [readManyLiteral, if_pos (by decide)] <;> grind
  close r := by rw [readManyLiteral]
  newline r := by rw [readManyLiteral, if_pos (by decide)] <;> simp
  lineEnd r := by rw [readManyLiteral]

theorem readManyLiteral_cons (hc : isLineChar c = true ∨ c = '\n') (hquote : c ≠ '\x27')
    (r : List Char) : readManyLiteral (c :: r) = withChar (some c) (readManyLiteral r) := by
  have hreturn := ne_return hc
  rw [readManyLiteral, if_pos (by simpa using hc)] <;> grind

theorem endsLine_of_escape {e : Char} (h : escapeValue? e = some c) (r : List Char) :
    endsLine (e :: r) = false := by
  obtain ⟨-, -, hblank, hline, hreturn⟩ := escapeValue?_eq_some h
  rw [endsLine, List.dropWhile_cons_of_neg (by simp [hblank])]
  grind

theorem Written.readManyBasic_append (h : Written true c w) (r : List Char) :
    readManyBasic false (w ++ r) = withChar (some c) (readManyBasic false r) := by
  cases h with
  | @escape e he =>
    obtain ⟨hu, hU, -⟩ := escapeValue?_eq_some he
    show readManyBasic false ('\\' :: e :: r) = _
    rw [readManyBasic, endsLine_of_escape he, if_neg Bool.false_ne_true, he]
    · exact fun _ _ _ _ _ h => absurd h hu
    · exact fun _ _ _ _ _ _ _ _ _ h => absurd h hU
  | @codePoint a₁ a₂ a₃ a₄ hvalue =>
    show readManyBasic false ('\\' :: 'u' :: a₁ :: a₂ :: a₃ :: a₄ :: r) = _
    rw [readManyBasic, hvalue]
  | itself hquote hslash hline =>
    have hc := hline.imp_right And.right
    have hreturn := ne_return hc
    rw [List.singleton_append, readManyBasic, Bool.false_and, if_neg Bool.false_ne_true,
      if_pos (by simpa using hc)] <;> grind

theorem replicate_append_cons_self (run : Nat) (q : Char) (r : List Char) :
    List.replicate run q ++ q :: r = List.replicate (run + 1) q ++ r := by
  rw [List.replicate_succ', List.append_assoc, List.singleton_append]

/-- The induction is over the text, with the bare quotes that directly precede it left unread. -/
theorem readManyBasic_writeBasic (hrun : run ≤ 2) (cs : List Char) (hr : ∀ a ∈ r.head?, a ≠ '"') :
    readManyBasic false
        (List.replicate run '"' ++ (writeBasic true run cs ++ '"' :: '"' :: '"' :: r)) =
      some (List.replicate run '"' ++ cs, r) := by
  induction cs generalizing run with
  | nil =>
    rw [writeBasic, List.append_nil]
    exact readsLines_readManyBasic.read_close hrun hr
  | cons c cs ih =>
    by_cases hbare : c = '"' ∧ run < 2
    · obtain ⟨rfl, hlt⟩ := hbare
      rw [writeBasic_quote hlt, List.cons_append, replicate_append_cons_self, ih hlt,
        replicate_append_cons_self]
    · obtain ⟨w, hw, he⟩ : ∃ w, Written true c w ∧ writeBasic true run (c :: cs) = _ :=
        exists_writeBasic_cons (by grind) cs
      have hread := hw.readManyBasic_append (writeBasic true 0 cs ++ '"' :: '"' :: '"' :: r)
      obtain ⟨a, l, rfl, ha⟩ := hw.exists_cons
      rw [he, List.append_assoc, List.cons_append,
        readsLines_readManyBasic.read_bare hrun ha, ← List.cons_append, hread]
      have hrest : readManyBasic false (writeBasic true 0 cs ++ '"' :: '"' :: '"' :: r) =
        some (cs, r) := ih (Nat.zero_le 2)
      rw [hrest]
      rfl

theorem le_longestRun (q : Char) (run : Nat) (cs : List Char) : run ≤ longestRun q run cs := by
  induction cs generalizing run with
  | nil => exact Nat.le_refl run
  | cons c cs ih =>
    rw [longestRun]
    split
    · exact Nat.le_of_succ_le (ih (run + 1))
    · exact Nat.le_max_left ..

theorem readManyLiteral_append (hline : ∀ c ∈ cs, isLineChar c = true ∨ c = '\n')
    (hrun : longestRun '\x27' run cs ≤ 2) (hr : ∀ a ∈ r.head?, a ≠ '\x27') :
    readManyLiteral (List.replicate run '\x27' ++ (cs ++ '\x27' :: '\x27' :: '\x27' :: r)) =
      some (List.replicate run '\x27' ++ cs, r) := by
  have hle : run ≤ 2 := Nat.le_trans (le_longestRun _ run cs) hrun
  induction cs generalizing run with
  | nil =>
    rw [List.append_nil]
    exact readsLines_readManyLiteral.read_close hle hr
  | cons c cs ih =>
    obtain ⟨hc, hcs⟩ := List.forall_mem_cons.1 hline
    rw [longestRun] at hrun
    split at hrun
    · subst c
      have hle : run + 1 ≤ 2 := Nat.le_trans (le_longestRun _ (run + 1) cs) hrun
      rw [List.cons_append, replicate_append_cons_self, ih hcs hrun hle, replicate_append_cons_self]
    · rename_i hne
      have hrest : readManyLiteral (cs ++ '\x27' :: '\x27' :: '\x27' :: r) = some (cs, r) :=
        ih hcs (Nat.le_trans (Nat.le_max_right ..) hrun) (Nat.zero_le 2)
      rw [List.cons_append, readsLines_readManyLiteral.read_bare hle hne,
        readManyLiteral_cons hc hne, hrest]
      rfl

/-! ## Strings -/

theorem formFor_eq_literal (h : formFor cs = .literal) :
    (∀ c ∈ cs, isLineChar c = true) ∧ '\x27' ∉ cs := by
  obtain ⟨hcontrols, hline, hquote⟩ : cs.any needsEscape = false ∧ cs.contains '\n' = false ∧
      cs.contains '\x27' = false := by
    simp only [formFor] at h
    grind
  rw [List.any_eq_false] at hcontrols
  rw [List.contains_eq_mem, decide_eq_false_iff_not] at hline hquote
  exact ⟨fun c hc => isLineChar_of_not_needsEscape (Bool.eq_false_iff.2 (hcontrols c hc))
    (ne_of_mem_of_not_mem hc hline), hquote⟩

theorem formFor_eq_manyLiteral (h : formFor cs = .manyLiteral) :
    (∀ c ∈ cs, isLineChar c = true ∨ c = '\n') ∧ longestRun '\x27' 0 cs ≤ 2 := by
  obtain ⟨hcontrols, hrun⟩ : cs.any needsEscape = false ∧ longestRun '\x27' 0 cs ≤ 2 := by
    simp only [formFor] at h
    grind
  rw [List.any_eq_false] at hcontrols
  refine ⟨fun c hc => ?_, hrun⟩
  refine (Decidable.em (c = '\n')).symm.imp_left fun hline => ?_
  exact isLineChar_of_not_needsEscape (Bool.eq_false_iff.2 (hcontrols c hc)) hline

theorem readString_of_readBasic (h : readBasic w = some (cs, r)) (hr : ∀ a ∈ r.head?, a ≠ '"') :
    readString ('"' :: w) = some (cs, r) := by
  rw [readString, h]
  rintro l rfl
  rw [readBasic] at h
  cases h
  exact hr '"' rfl rfl

theorem readString_of_readLiteral (h : readLiteral w = some (cs, r))
    (hr : ∀ a ∈ r.head?, a ≠ '\x27') : readString ('\x27' :: w) = some (cs, r) := by
  rw [readString, h]
  rintro l rfl
  rw [readLiteral, if_pos rfl] at h
  cases h
  exact hr '\x27' rfl rfl

/-- Whatever the text, its written form is read back, if no further quote follows. -/
theorem readString_writeString (cs : List Char) (hr : ∀ a ∈ r.head?, a ≠ '"' ∧ a ≠ '\x27') :
    readString (writeString cs ++ r) = some (cs, r) := by
  have hdouble : ∀ a ∈ r.head?, a ≠ '"' := fun a ha => (hr a ha).1
  have hsingle : ∀ a ∈ r.head?, a ≠ '\x27' := fun a ha => (hr a ha).2
  rw [writeString]
  split <;> rename_i hform <;>
    simp only [List.cons_append, List.append_assoc, List.nil_append]
  · exact readString_of_readBasic (readBasic_writeBasic 0 cs r) hdouble
  · obtain ⟨hline, hquote⟩ := formFor_eq_literal hform
    exact readString_of_readLiteral (readLiteral_append hline hquote r) hsingle
  · rw [readString]
    exact readsLines_readManyBasic.read_leadIn (readManyBasic_writeBasic (Nat.zero_le 2) cs hdouble)
  · obtain ⟨hline, hrun⟩ := formFor_eq_manyLiteral hform
    rw [readString]
    exact readsLines_readManyLiteral.read_leadIn (readManyLiteral_append hline hrun hsingle)

end ModelSurvey.Toml
