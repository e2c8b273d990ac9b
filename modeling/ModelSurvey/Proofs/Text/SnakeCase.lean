import Mathlib
import ModelSurvey.Proofs.Declaration.PlainNames
import ModelSurvey.Text.SnakeCase

/-! Snake case of constant names. A slash stands between the segments of a name and is a border for
the words: on either side of it a segment is written as if it stood alone. Inside a segment a new
word is seen at each capitalised word and at each acronym, unless two acronyms stand together. What
is in snake case already is not changed again. -/
namespace ModelSurvey.Text
set_option autoImplicit false

variable {b c : Char} {cs l r : List Char}

/-! ## Characters -/

theorem snakeChar_of_ne (h : c ≠ '-') : snakeChar c = c.toLower := if_neg h

theorem ne_dash_of_isAlphanum (h : c.isAlphanum = true) : c ≠ '-' := by
  rintro rfl
  cases h

theorem toLower_eq_iff {a : Char} (ha : a.isAlpha = false) : c.toLower = a ↔ c = a := by
  have hupper {d : Char} (h : d.isAlpha = false) : ¬d.isUpper = true := fun hd => by
    rw [Char.isAlpha, hd, Bool.true_or] at h
    cases h
  constructor
  · intro h
    have hc : c.isAlpha = false := by rw [← Char.isAlpha_toLower_eq_isAlpha, h, ha]
    rwa [Char.toLower_eq_of_not_isUpper (hupper hc)] at h
  · rintro rfl
    exact Char.toLower_eq_of_not_isUpper (hupper ha)

/-- A character that snake case leaves alone. -/
def IsSnake (c : Char) : Prop := c.isUpper = false ∧ c ≠ '-'

theorem isSnake_snakeChar (c : Char) : IsSnake (snakeChar c) := by
  rw [snakeChar]
  split
  · exact ⟨rfl, by decide⟩
  · rename_i hdash
    exact ⟨Char.isUpper_toLower_eq_false c, mt (toLower_eq_iff rfl).1 hdash⟩

theorem IsSnake.snakeChar_eq (h : IsSnake c) : snakeChar c = c := by
  rw [snakeChar_of_ne h.2, Char.toLower_eq_of_not_isUpper (by simp [h.1])]

theorem snakeChar_eq_iff {a : Char} (ha : a.isAlpha = false) (hdash : a ≠ '-') (hline : a ≠ '_') :
    snakeChar c = a ↔ c = a := by
  rw [snakeChar]
  split
  · rename_i hc
    subst hc
    exact iff_of_false (Ne.symm hline) (Ne.symm hdash)
  · exact toLower_eq_iff ha

/-! ## Word starts -/

theorem snakeAfter_cons_of_start (hc : c.isUpper = true) (h : startsWord b cs.head? = true) :
    snakeAfter b (c :: cs) = '_' :: snakeChar c :: snakeAfter c cs := by
  rw [snakeAfter, hc, h, Bool.and_self, if_pos rfl]

theorem snakeAfter_cons_of_not_start (h : (c.isUpper && startsWord b cs.head?) = false) :
    snakeAfter b (c :: cs) = snakeChar c :: snakeAfter c cs := by
  rw [snakeAfter, h, if_neg Bool.false_ne_true]

theorem snakeAfter_cons_of_not_isUpper (h : c.isUpper = false) :
    snakeAfter b (c :: cs) = snakeChar c :: snakeAfter c cs :=
  snakeAfter_cons_of_not_start (by rw [h, Bool.false_and])

/-- No word starts behind a character that is no ASCII letter or digit. -/
theorem snakeAfter_cons_of_not_isAlphanum (h : b.isAlphanum = false) :
    snakeAfter b (c :: cs) = snakeChar c :: snakeAfter c cs := by
  simp only [Char.isAlphanum, Char.isAlpha, Bool.or_eq_false_iff] at h
  exact snakeAfter_cons_of_not_start (by rw [startsWord, h.1.1, h.1.2, h.2]; simp)

theorem snakeChars_eq (cs : List Char) : snakeChars cs = snakeAfter '/' cs := by
  cases cs with
  | nil => rfl
  | cons c cs => rw [snakeChars, snakeAfter_cons_of_not_isAlphanum rfl]

/-! ## Segments -/

/-- Nothing that is written before a slash depends on what follows it, or the other way round. -/
theorem snakeAfter_append_slash (b : Char) (l r : List Char) :
    snakeAfter b (l ++ '/' :: r) = snakeAfter b l ++ '/' :: snakeAfter '/' r := by
  induction l generalizing b with
  | nil => exact snakeAfter_cons_of_not_isUpper rfl
  | cons c l ih =>
    have hnext : startsWord b (l ++ '/' :: r).head? = startsWord b l.head? := by
      cases l <;> rfl
    rw [List.cons_append, snakeAfter, snakeAfter, hnext, ih]
    split <;> rfl

theorem snakeAfter_intercalate (texts : List (List Char)) :
    snakeAfter '/' (['/'].intercalate texts) = ['/'].intercalate (texts.map (snakeAfter '/')) := by
  induction texts with
  | nil => rfl
  | cons a texts ih =>
    by_cases h : texts = []
    · subst h
      simp
    · have hmap : texts.map (snakeAfter '/') ≠ [] := mt List.map_eq_nil_iff.1 h
      rw [List.intercalate_cons_of_ne_nil h, List.append_assoc, List.singleton_append,
        snakeAfter_append_slash, ih, List.map_cons, List.intercalate_cons_of_ne_nil hmap,
        List.append_assoc, List.singleton_append]

theorem cutMarks_ne_nil (cs : List Char) : Name.cutMarks cs ≠ [] := by
  rw [Name.cutMarks.eq_def]
  split
  · simp
  · simp
  · rename_i c cs _
    cases Name.cutMarks cs <;> simp [consFirst]

theorem slashMarks_eq (cs : List Char) : slashMarks cs = ['/'].intercalate (Name.cutMarks cs) := by
  fun_induction slashMarks cs with
  | case1 => rfl
  | case2 r ih =>
    rw [Name.cutMarks, List.intercalate_cons_of_ne_nil (cutMarks_ne_nil r), ih]
    rfl
  | case3 c r h ih =>
    have hcut : Name.cutMarks (c :: r) = consFirst c (Name.cutMarks r) := by
      rw [Name.cutMarks.eq_def]
      split
      · rename_i he
        cases he
      · rename_i he
        cases he
        exact absurd rfl (h _ rfl)
      · rename_i he
        cases he
        rfl
    rw [hcut, ih]
    cases hr : Name.cutMarks r with
    | nil => exact absurd hr (cutMarks_ne_nil r)
    | cons w ws =>
      cases ws with
      | nil => simp [consFirst]
      | cons v vs => rw [consFirst, List.intercalate_cons_cons, List.intercalate_cons_cons]; rfl

theorem underscore_join {names : List String} (hne : names ≠ []) (h : Name.Plain names) :
    (underscore (Name.join names)).toList =
      ['/'].intercalate (names.map fun name => snakeAfter '/' name.toList) := by
  obtain ⟨s, r, rfl⟩ := List.exists_cons_of_ne_nil hne
  rw [underscore, String.toList_ofList, Name.unroot_join h, slashMarks_eq, Name.cutMarks_join h,
    snakeChars_eq, snakeAfter_intercalate, List.map_map]
  rfl

theorem underscore_mark_append (name : String) :
    underscore (Name.mark ++ name) = underscore name := by
  rw [underscore, Name.unroot_mark_append, underscore]

/-! ## Words -/

/-- A small letter or a digit, behind which a capital starts a word. -/
def IsSmall (c : Char) : Prop := c.isLower = true ∨ c.isDigit = true

/-- A capital, a small letter, and then small letters and digits. -/
def IsCapitalised (w : List Char) : Prop :=
  ∃ a b r, w = a :: b :: r ∧ a.isUpper = true ∧ b.isLower = true ∧ ∀ c ∈ r, IsSmall c

def IsAcronym (w : List Char) : Prop := w ≠ [] ∧ ∀ c ∈ w, c.isUpper = true

/-- The words of a segment. An acronym right behind another one could not be told from it. -/
structure CamelWords (words : List (List Char)) : Prop where
  cased : ∀ w ∈ words, IsCapitalised w ∨ IsAcronym w
  apart : words.IsChain fun v w => ¬(IsAcronym v ∧ IsAcronym w)

theorem IsCapitalised.exists_small {w : List Char} (h : IsCapitalised w) :
    ∃ a b r, w = a :: b :: r ∧ a.isUpper = true ∧ b.isLower = true ∧ ∀ c ∈ b :: r, IsSmall c := by
  obtain ⟨a, b, r, hw, ha, hb, hr⟩ := h
  exact ⟨a, b, r, hw, ha, hb, List.forall_mem_cons.2 ⟨Or.inl hb, hr⟩⟩

theorem IsSmall.isAlphanum (h : IsSmall c) : c.isAlphanum = true := by
  rcases h with h | h <;> simp [Char.isAlphanum, Char.isAlpha, h]

theorem IsSmall.isUpper_eq_false (h : IsSmall c) : c.isUpper = false := by
  rcases h with h | h
  · exact Bool.eq_false_iff.2 (Char.not_isUpper_of_isLower h)
  · simp only [Char.isDigit, Char.isUpper, ge_iff_le, Bool.and_eq_true, decide_eq_true_eq,
      decide_eq_false_iff_not, not_and, UInt32.le_iff_toNat_le] at h ⊢
    exact fun hlow => absurd (Nat.le_trans hlow h.2) (by decide)

theorem not_isSmall_of_isUpper (h : c.isUpper = true) : ¬IsSmall c := fun hsmall => by
  rw [hsmall.isUpper_eq_false] at h
  cases h

theorem snakeChar_of_isAlphanum (h : c.isAlphanum = true) : snakeChar c = c.toLower :=
  snakeChar_of_ne (ne_dash_of_isAlphanum h)

theorem isAlphanum_of_isUpper (h : c.isUpper = true) : c.isAlphanum = true := by
  rw [Char.isAlphanum, Char.isAlpha, h, Bool.true_or, Bool.true_or]

/-- Small letters and digits start no word. -/
theorem snakeAfter_small_append (h : ∀ c ∈ l, IsSmall c) (r : List Char) :
    snakeAfter b (l ++ r) = l.map Char.toLower ++ snakeAfter (l.getLastD b) r := by
  induction l generalizing b with
  | nil => rfl
  | cons c l ih =>
    obtain ⟨hc, hl⟩ := List.forall_mem_cons.1 h
    rw [List.cons_append, snakeAfter_cons_of_not_isUpper hc.isUpper_eq_false,
      snakeChar_of_isAlphanum hc.isAlphanum, ih hl, List.getLastD_cons, List.map_cons,
      List.cons_append]

theorem startsWord_of_isUpper (hb : b.isUpper = true) (h : ∀ a ∈ r.head?, a.isLower = false) :
    startsWord b r.head? = false := by
  have hsmall := not_isSmall_of_isUpper hb
  rw [IsSmall, not_or, Bool.not_eq_true, Bool.not_eq_true] at hsmall
  rw [startsWord, hsmall.1, hsmall.2, hb, Bool.or_self, Bool.false_or, Bool.true_and]
  cases hr : r.head? with
  | none => rfl
  | some a => exact h a hr

/-- Capitals behind a capital start no word, unless a small letter follows the last of them. -/
theorem snakeAfter_capitals_append (hb : b.isUpper = true) (h : ∀ c ∈ l, c.isUpper = true)
    (hr : ∀ a ∈ r.head?, a.isLower = false) :
    snakeAfter b (l ++ r) = l.map Char.toLower ++ snakeAfter (l.getLastD b) r := by
  induction l generalizing b with
  | nil => rfl
  | cons c l ih =>
    obtain ⟨hc, hl⟩ := List.forall_mem_cons.1 h
    have hnext : ∀ a ∈ (l ++ r).head?, a.isLower = false := by
      cases l with
      | nil => exact hr
      | cons d l =>
        intro a ha
        cases ha
        exact Bool.eq_false_iff.2 (Char.not_isLower_of_isUpper (hl d (List.mem_cons_self ..)))
    rw [List.cons_append,
      snakeAfter_cons_of_not_start (by rw [startsWord_of_isUpper hb hnext, Bool.and_false]),
      snakeChar_of_isAlphanum (isAlphanum_of_isUpper hc), ih hc hl, List.getLastD_cons,
      List.map_cons, List.cons_append]

/-- What follows the first capital of a word is written in small letters, and the next word is
seen from its last character. -/
theorem exists_cons_of_cased {w : List Char} (h : IsCapitalised w ∨ IsAcronym w) :
    ∃ c tail, w = c :: tail ∧ c.isUpper = true ∧
      ∀ r, (∀ a ∈ r.head?, a.isLower = false) →
        snakeAfter c (tail ++ r) = tail.map Char.toLower ++ snakeAfter (tail.getLastD c) r := by
  rcases h with h | ⟨hne, hall⟩
  · obtain ⟨a, b, r, rfl, ha, -, htail⟩ := h.exists_small
    exact ⟨a, b :: r, rfl, ha, fun r _ => snakeAfter_small_append htail r⟩
  · obtain ⟨c, tail, rfl⟩ := List.exists_cons_of_ne_nil hne
    obtain ⟨hc, htail⟩ := List.forall_mem_cons.1 hall
    exact ⟨c, tail, rfl, hc, fun r hr => snakeAfter_capitals_append hc htail hr⟩

/-- A word that starts behind `b`. -/
def StartsBehind (b : Char) (w : List Char) : Prop := IsSmall b ∨ b.isUpper = true ∧ IsCapitalised w

theorem StartsBehind.startsWord_eq {tail : List Char} (h : StartsBehind b (c :: tail))
    (r : List Char) : startsWord b (tail ++ r).head? = true := by
  rcases h with (hb | hb) | ⟨hb, _, d, _, he, _, hd, _⟩
  · rw [startsWord, hb, Bool.true_or, Bool.true_or]
  · rw [startsWord, hb, Bool.or_true, Bool.true_or]
  · cases he
    rw [startsWord, hb, List.cons_append, List.head?_cons, Option.any_some, hd, Bool.and_self,
      Bool.or_true]

theorem getLastD_of_isAcronym {tail : List Char} (h : IsAcronym (c :: tail)) :
    (tail.getLastD c).isUpper = true := by
  rw [← List.getLastD_cons (a := c), List.getLastD_eq_getLast?, List.getLast?_eq_some_getLast h.1]
  exact h.2 _ (List.getLast_mem h.1)

theorem getLastD_of_isCapitalised {tail : List Char} (h : IsCapitalised (c :: tail)) :
    IsSmall (tail.getLastD c) := by
  obtain ⟨_, b, r, he, -, -, htail⟩ := h.exists_small
  cases he
  rw [List.getLastD_eq_getLast?, List.getLast?_eq_some_getLast (List.cons_ne_nil b r)]
  exact htail _ (List.getLast_mem (List.cons_ne_nil b r))

theorem startsBehind_of_apart {v w : List Char} {tail : List Char} (hv : v = c :: tail)
    (hcased : IsCapitalised v ∨ IsAcronym v) (hw : IsCapitalised w ∨ IsAcronym w)
    (hapart : ¬(IsAcronym v ∧ IsAcronym w)) : StartsBehind (tail.getLastD c) w := by
  subst hv
  rcases hcased with h | h
  · exact Or.inl (getLastD_of_isCapitalised h)
  · exact Or.inr ⟨getLastD_of_isAcronym h, hw.resolve_right fun hacronym => hapart ⟨h, hacronym⟩⟩

theorem head?_flatten_of_cased {words : List (List Char)}
    (h : ∀ w ∈ words, IsCapitalised w ∨ IsAcronym w) :
    ∀ a ∈ words.flatten.head?, a.isLower = false := by
  cases words with
  | nil => exact fun a ha => by cases ha
  | cons w words =>
    obtain ⟨c, tail, rfl, hc, -⟩ := exists_cons_of_cased (h w (List.mem_cons_self ..))
    intro a ha
    cases ha
    exact Bool.eq_false_iff.2 (Char.not_isLower_of_isUpper hc)

theorem CamelWords.tail {w : List Char} {words : List (List Char)} (h : CamelWords (w :: words)) :
    CamelWords words :=
  ⟨fun v hv => h.cased v (List.mem_cons_of_mem w hv), h.apart.tail⟩

/-- Each word behind the first one of a segment gets an underscore in front. -/
theorem snakeAfter_capital {tail : List Char} {words : List (List Char)}
    (h : CamelWords ((c :: tail) :: words)) :
    snakeAfter c (tail ++ words.flatten) =
      tail.map Char.toLower ++ words.flatMap fun w => '_' :: w.map Char.toLower := by
  induction words generalizing c tail with
  | nil =>
    obtain ⟨_, _, he, -, htail⟩ := exists_cons_of_cased (h.cased _ (List.mem_cons_self ..))
    cases he
    exact htail [] fun a ha => by cases ha
  | cons v words ih =>
    have hcased := h.cased _ (List.mem_cons_self ..)
    have hv := h.tail.cased v (List.mem_cons_self ..)
    obtain ⟨_, _, he, -, htail⟩ := exists_cons_of_cased hcased
    cases he
    have hstart := startsBehind_of_apart rfl hcased hv (List.isChain_cons_cons.1 h.apart).1
    rw [htail _ (head?_flatten_of_cased h.tail.cased)]
    obtain ⟨d, rest, rfl, hd, -⟩ := exists_cons_of_cased hv
    rw [List.flatten_cons, List.cons_append,
      snakeAfter_cons_of_start hd (hstart.startsWord_eq _),
      snakeChar_of_isAlphanum (isAlphanum_of_isUpper hd), ih h.tail]
    rfl

theorem intercalate_cons_eq {α : Type} (a : α) (w : List α) (ws : List (List α)) :
    [a].intercalate (w :: ws) = w ++ ws.flatMap (a :: ·) := by
  induction ws generalizing w with
  | nil => simp
  | cons v ws ih =>
    rw [List.intercalate_cons_cons, ih, List.flatMap_cons, List.append_assoc]
    rfl

/-- A segment is written as its words with underscores between them. -/
theorem snakeAfter_words {words : List (List Char)} (h : CamelWords words) :
    snakeAfter '/' words.flatten = ['_'].intercalate (words.map (·.map Char.toLower)) := by
  cases words with
  | nil => rfl
  | cons w words =>
    obtain ⟨c, tail, rfl, hc, -⟩ := exists_cons_of_cased (h.cased w (List.mem_cons_self ..))
    rw [List.flatten_cons, List.cons_append, snakeAfter_cons_of_not_isAlphanum rfl,
      snakeChar_of_isAlphanum (isAlphanum_of_isUpper hc), snakeAfter_capital h, List.map_cons,
      intercalate_cons_eq, List.flatMap_map]
    rfl

/-! ## Texts in snake case -/

/-- No two colons stand together. -/
def NoMark (cs : List Char) : Prop := cs.IsChain fun a b => ¬(a = ':' ∧ b = ':')

theorem NoMark.no_double_colon (h : NoMark cs) : ¬[':', ':'] <:+: cs := by
  intro hmark
  have hpair := List.IsChain.infix h hmark
  exact List.isChain_pair.1 hpair ⟨rfl, rfl⟩

theorem head?_slashMarks (h : (slashMarks cs).head? = some ':') : cs.head? = some ':' := by
  unfold slashMarks at h
  split at h
  · cases h
  · rfl
  · exact h

theorem noMark_slashMarks (cs : List Char) : NoMark (slashMarks cs) := by
  fun_induction slashMarks cs with
  | case1 => exact .nil
  | case2 r ih => exact List.isChain_cons.2 ⟨fun _ _ hcolon => (by cases hcolon.1), ih⟩
  | case3 c r h ih =>
    refine List.isChain_cons.2 ⟨fun a ha hcolon => ?_, ih⟩
    obtain ⟨rfl, rfl⟩ := hcolon
    obtain ⟨rest, rfl⟩ := List.head?_eq_some_iff.1 (head?_slashMarks ha)
    exact h rest rfl rfl

theorem NoMark.snakeAfter (h : NoMark cs) (b : Char) : NoMark (snakeAfter b cs) := by
  induction cs generalizing b with
  | nil => exact .nil
  | cons c cs ih =>
    obtain ⟨hnext, hcs⟩ := List.isChain_cons.1 h
    have hword : NoMark (snakeChar c :: Text.snakeAfter c cs) := by
      refine List.isChain_cons.2 ⟨fun a ha hcolon => ?_, ih hcs c⟩
      obtain ⟨hc, rfl⟩ := hcolon
      obtain rfl := (snakeChar_eq_iff rfl (by decide) (by decide)).1 hc
      cases cs with
      | nil => cases ha
      | cons d cs =>
        rw [snakeAfter_cons_of_not_isAlphanum rfl, List.head?_cons, Option.mem_some_iff] at ha
        exact hnext d rfl ⟨rfl, (snakeChar_eq_iff rfl (by decide) (by decide)).1 ha⟩
    rw [Text.snakeAfter]
    split
    · exact List.isChain_cons.2 ⟨fun _ _ hcolon => (by cases hcolon.1), hword⟩
    · exact hword

theorem mem_snakeAfter (hc : c ∈ snakeAfter b cs) : c = '_' ∨ ∃ d ∈ cs, c = snakeChar d := by
  induction cs generalizing b with
  | nil => cases hc
  | cons d cs ih =>
    have hword : c ∈ '_' :: snakeChar d :: snakeAfter d cs := by
      rw [snakeAfter] at hc
      split at hc
      · exact hc
      · exact List.mem_cons_of_mem _ hc
    rcases List.mem_cons.1 hword with rfl | hword
    · exact Or.inl rfl
    · rcases List.mem_cons.1 hword with rfl | hword
      · exact Or.inr ⟨d, List.mem_cons_self .., rfl⟩
      · exact (ih hword).imp_right fun ⟨e, he, hsame⟩ => ⟨e, List.mem_cons_of_mem d he, hsame⟩

theorem isSnake_of_mem_snakeAfter (hc : c ∈ snakeAfter b cs) : IsSnake c := by
  rcases mem_snakeAfter hc with rfl | ⟨d, -, rfl⟩
  · exact ⟨rfl, by decide⟩
  · exact isSnake_snakeChar d

theorem snakeAfter_of_isSnake (h : ∀ c ∈ cs, IsSnake c) (b : Char) : snakeAfter b cs = cs := by
  induction cs generalizing b with
  | nil => rfl
  | cons c cs ih =>
    obtain ⟨hc, hcs⟩ := List.forall_mem_cons.1 h
    rw [snakeAfter_cons_of_not_isUpper hc.1, hc.snakeChar_eq, ih hcs]

theorem NoMark.dropMarks_eq (h : NoMark cs) : Name.dropMarks cs = cs := by
  unfold Name.dropMarks
  split
  · exact absurd ⟨rfl, rfl⟩ (List.isChain_cons_cons.1 h).1
  · rfl

theorem NoMark.slashMarks_eq (h : NoMark cs) : slashMarks cs = cs := by
  fun_induction slashMarks cs with
  | case1 => rfl
  | case2 r ih => exact absurd ⟨rfl, rfl⟩ (List.isChain_cons_cons.1 h).1
  | case3 c r _ ih => rw [ih (List.isChain_cons.1 h).2]

theorem toList_underscore (name : String) :
    (underscore name).toList = snakeAfter '/' (slashMarks (Name.unroot name).toList) := by
  rw [underscore, String.toList_ofList, snakeChars_eq]

theorem noMark_underscore (name : String) : NoMark (underscore name).toList := by
  rw [toList_underscore]
  exact (noMark_slashMarks _).snakeAfter '/'

theorem isSnake_of_mem_underscore {name : String} (hc : c ∈ (underscore name).toList) :
    IsSnake c := by
  rw [toList_underscore] at hc
  exact isSnake_of_mem_snakeAfter hc

theorem underscore_idem (name : String) : underscore (underscore name) = underscore name := by
  have hmark := noMark_underscore name
  rw [← String.toList_inj, toList_underscore, Name.unroot, String.toList_ofList, hmark.dropMarks_eq,
    hmark.slashMarks_eq, snakeAfter_of_isSnake fun c hc => isSnake_of_mem_underscore hc]

/-! ## Names made of words -/

/-- The words of a segment in small letters, with underscores between them. -/
def snakeSegment (words : List String) : String := "_".intercalate (words.map String.toLower)

theorem isAlphanum_of_mem {words : List String} (h : CamelWords (words.map String.toList)) :
    ∀ c ∈ (String.join words).toList, c.isAlphanum = true := by
  intro c hc
  rw [String.toList_join] at hc
  obtain ⟨w, hw, hc⟩ := List.mem_flatMap.1 hc
  rcases h.cased _ (List.mem_map_of_mem hw) with hcased | ⟨-, hall⟩
  · obtain ⟨a, b, r, he, ha, -, htail⟩ := hcased.exists_small
    rw [he] at hc
    rcases List.mem_cons.1 hc with rfl | hc
    · exact isAlphanum_of_isUpper ha
    · exact (htail c hc).isAlphanum
  · exact isAlphanum_of_isUpper (hall c hc)

theorem toList_snakeSegment {words : List String} (h : CamelWords (words.map String.toList)) :
    (snakeSegment words).toList = snakeAfter '/' (String.join words).toList := by
  have hwords : (words.map String.toLower).map String.toList =
      (words.map String.toList).map (·.map Char.toLower) := by
    rw [List.map_map, List.map_map]
    exact List.map_congr_left fun w _ => String.toList_map
  rw [snakeSegment, String.toList_intercalate, String.toList_join, List.flatMap_def,
    snakeAfter_words h, hwords]
  rfl

theorem exists_cons_join {words : List String} (hne : words ≠ [])
    (h : CamelWords (words.map String.toList)) :
    ∃ c r, (String.join words).toList = c :: r ∧ c.isUpper = true := by
  obtain ⟨w, ws, rfl⟩ := List.exists_cons_of_ne_nil hne
  obtain ⟨c, tail, hw, hc, -⟩ := exists_cons_of_cased (h.cased _ (List.mem_cons_self ..))
  exact ⟨c, tail ++ ws.flatMap String.toList, by simp [hw], hc⟩

/-- A segment in snake case begins with a small letter and is one piece of a path. -/
theorem exists_cons_snakeSegment {words : List String} (hne : words ≠ [])
    (h : CamelWords (words.map String.toList)) :
    ∃ c r, (snakeSegment words).toList = c :: r ∧ c.isLower = true ∧ '/' ∉ c :: r := by
  obtain ⟨c, r, hjoin, hc⟩ := exists_cons_join hne h
  have htext : (snakeSegment words).toList = snakeChar c :: snakeAfter c r := by
    rw [toList_snakeSegment h, hjoin, snakeAfter_cons_of_not_isAlphanum rfl]
  refine ⟨_, _, htext, ?_, ?_⟩
  · rw [snakeChar_of_isAlphanum (isAlphanum_of_isUpper hc), Char.isLower_toLower_eq_isAlpha,
      Char.isAlpha, hc, Bool.true_or]
  · rw [← htext, toList_snakeSegment h]
    intro hslash
    rcases mem_snakeAfter hslash with he | ⟨d, hd, he⟩
    · cases he
    · obtain rfl := (snakeChar_eq_iff rfl (by decide) (by decide)).1 he.symm
      exact absurd (isAlphanum_of_mem h _ hd) (by decide)

theorem plain_join {segments : List (List String)}
    (h : ∀ words ∈ segments, words ≠ [] ∧ CamelWords (words.map String.toList)) :
    Name.Plain (segments.map String.join) := by
  intro name hname
  obtain ⟨words, hwords, rfl⟩ := List.mem_map.1 hname
  obtain ⟨hne, hcamel⟩ := h words hwords
  obtain ⟨c, r, hjoin, -⟩ := exists_cons_join hne hcamel
  refine ⟨fun he => ?_, fun hcolon => ?_⟩
  · rw [he] at hjoin
    cases hjoin
  · exact absurd (isAlphanum_of_mem hcamel _ hcolon) (by decide)

/-- A constant name is written segment by segment, and each segment word by word. -/
theorem underscore_segments {segments : List (List String)} (hne : segments ≠ [])
    (h : ∀ words ∈ segments, words ≠ [] ∧ CamelWords (words.map String.toList)) :
    underscore (Name.join (segments.map String.join)) =
      "/".intercalate (segments.map snakeSegment) := by
  have hnames : segments.map String.join ≠ [] := mt List.map_eq_nil_iff.1 hne
  rw [← String.toList_inj, underscore_join hnames (plain_join h), String.toList_intercalate,
    List.map_map, List.map_map]
  have htexts : ∀ words ∈ segments, snakeAfter '/' (String.join words).toList =
      (snakeSegment words).toList := fun words hwords =>
    (toList_snakeSegment (h words hwords).2).symm
  exact congrArg _ (List.map_congr_left htexts)

end ModelSurvey.Text
