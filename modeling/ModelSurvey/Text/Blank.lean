/-! White space in the sense of the Unicode property White_Space, trimming by it, and cutting a
text into pieces. `pieces p` cuts at every character satisfying `p`; `words` are the non-empty
pieces between blanks. -/
namespace ModelSurvey.Text
set_option autoImplicit false

/-! ## Blanks -/

def blankRanges : List (Nat × Nat) :=
  [(0x09, 0x0D), (0x20, 0x20), (0x85, 0x85), (0xA0, 0xA0), (0x1680, 0x1680), (0x2000, 0x200A),
    (0x2028, 0x2029), (0x202F, 0x202F), (0x205F, 0x205F), (0x3000, 0x3000)]

def isBlank (c : Char) : Bool :=
  blankRanges.any fun r => decide (r.1 ≤ c.toNat ∧ c.toNat ≤ r.2)

theorem isBlank_of_isWhitespace (c : Char) (h : c.isWhitespace = true) : isBlank c = true := by
  simp only [Char.isWhitespace, Bool.or_eq_true, decide_eq_true_eq] at h
  rcases h with ((rfl | rfl) | rfl) | rfl <;> decide

def trimLeft (cs : List Char) : List Char := cs.dropWhile isBlank

def trimRight (cs : List Char) : List Char := (cs.reverse.dropWhile isBlank).reverse

def trim (cs : List Char) : List Char := trimRight (trimLeft cs)

/-! ## Pieces -/

def consFirst {α : Type} (c : α) : List (List α) → List (List α)
  | [] => [[c]]
  | w :: ws => (c :: w) :: ws

/-- Cuts at every element satisfying `p`, keeping empty pieces. -/
def pieces {α : Type} (p : α → Bool) : List α → List (List α)
  | [] => [[]]
  | c :: r => if p c then [] :: pieces p r else consFirst c (pieces p r)

def words (cs : List Char) : List (List Char) := (pieces isBlank cs).filter (!·.isEmpty)

theorem pieces_ne_nil {α : Type} (p : α → Bool) (cs : List α) : pieces p cs ≠ [] := by
  cases cs with
  | nil => simp [pieces]
  | cons c r =>
    rw [pieces]
    split
    · simp
    · cases pieces p r <;> simp [consFirst]

theorem pieces_of_not_cut {α : Type} {p : α → Bool} {cs : List α} (h : ∀ c ∈ cs, p c = false) :
    pieces p cs = [cs] := by
  induction cs with
  | nil => rfl
  | cons c r ih =>
    have hc := h c (List.mem_cons_self ..)
    rw [pieces, if_neg (by simp [hc]), ih fun a ha => h a (List.mem_cons_of_mem c ha)]
    rfl

theorem pieces_cons_of_cut {α : Type} {p : α → Bool} {c : α} (r : List α) (h : p c = true) :
    pieces p (c :: r) = [] :: pieces p r := by
  rw [pieces, if_pos h]

theorem pieces_append_of_cut {α : Type} {p : α → Bool} {c : α} (l r : List α) (h : p c = true) :
    pieces p (l ++ c :: r) = pieces p l ++ pieces p r := by
  induction l with
  | nil => exact pieces_cons_of_cut r h
  | cons a l ih =>
    rw [List.cons_append, pieces, pieces, ih]
    split
    · rfl
    · obtain ⟨w, ws, hl⟩ := List.exists_cons_of_ne_nil (pieces_ne_nil p l)
      rw [hl]
      rfl

/-! ## Words -/

theorem words_append_of_blank {c : Char} (l r : List Char) (h : isBlank c = true) :
    words (l ++ c :: r) = words l ++ words r := by
  rw [words, pieces_append_of_cut l r h, List.filter_append]
  rfl

theorem words_of_blank {l : List Char} (h : ∀ c ∈ l, isBlank c = true) (r : List Char) :
    words (l ++ r) = words r := by
  induction l with
  | nil => rfl
  | cons c l ih =>
    rw [List.cons_append, ← List.nil_append (c :: (l ++ r)),
      words_append_of_blank [] (l ++ r) (h c (List.mem_cons_self ..)),
      ih fun a ha => h a (List.mem_cons_of_mem c ha)]
    rfl

theorem words_of_not_blank {cs : List Char} (hne : cs ≠ []) (h : ∀ c ∈ cs, isBlank c = false) :
    words cs = [cs] := by
  obtain ⟨c, r, rfl⟩ := List.exists_cons_of_ne_nil hne
  rw [words, pieces_of_not_cut h]
  rfl

end ModelSurvey.Text
