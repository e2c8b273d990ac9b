import ModelSurvey.Proofs.Toml.Numbers
import ModelSurvey.Proofs.Toml.Strings
import ModelSurvey.Toml.Reader
import ModelSurvey.Toml.Writer

/-! Written values are read back. A string stands before a comma or a bracket, every other value at
the end of its line; the items of an array are read one by one, each behind the blank that its
predecessor's comma leaves. -/
namespace ModelSurvey.Toml
set_option autoImplicit false
open Text

variable {c : Char} {cs r : List Char}

/-! ## Blanks -/

/-- A character that is no blank and begins neither a line end nor a comment. -/
def IsSolid (c : Char) : Prop := isSpaceOrTab c = false ∧ c ≠ '\n' ∧ c ≠ '\r' ∧ c ≠ '#'

instance (c : Char) : Decidable (IsSolid c) := inferInstanceAs (Decidable (_ ∧ _))

theorem skipBlanks_of_not_blank (hc : isSpaceOrTab c = false) (r : List Char) :
    skipBlanks (c :: r) = c :: r :=
  List.dropWhile_cons_of_neg (by simp [hc])

theorem skipSpace_of_skipBlanks (hc : IsSolid c) (h : skipBlanks cs = c :: r) :
    skipSpace cs = c :: r := by
  obtain ⟨-, hline, hreturn, hcomment⟩ := hc
  rw [skipSpace]
  split
  · rename_i l he
    exact absurd (List.cons.inj (h.symm.trans he)).1 hline
  · rename_i l he
    exact absurd (List.cons.inj (h.symm.trans he)).1 hreturn
  · rename_i l he
    exact absurd (List.cons.inj (h.symm.trans he)).1 hcomment
  · exact h

theorem skipSpace_of_isSolid (hc : IsSolid c) (r : List Char) : skipSpace (c :: r) = c :: r :=
  skipSpace_of_skipBlanks hc (skipBlanks_of_not_blank hc.1 r)

theorem skipSpace_blank (hc : IsSolid c) (r : List Char) : skipSpace (' ' :: c :: r) = c :: r :=
  skipSpace_of_skipBlanks hc (skipBlanks_of_not_blank hc.1 r)

/-! ## Strings -/

theorem exists_cons_writeString (cs : List Char) :
    ∃ q l, writeString cs = q :: l ∧ (q = '"' ∨ q = '\x27') := by
  rw [writeString]
  split
  · exact ⟨_, _, rfl, .inl rfl⟩
  · exact ⟨_, _, rfl, .inr rfl⟩
  · exact ⟨_, _, rfl, .inl rfl⟩
  · exact ⟨_, _, rfl, .inr rfl⟩

theorem isSolid_of_quote (h : c = '"' ∨ c = '\x27') : IsSolid c := by
  rcases h with rfl | rfl <;> decide

theorem scalar?_writeString (s : String) (hr : ∀ a ∈ r.head?, a ≠ '"' ∧ a ≠ '\x27') :
    scalar? (writeString s.toList ++ r) = some (.string s, r) := by
  have hread := readString_writeString s.toList hr
  obtain ⟨q, l, hl, hq⟩ := exists_cons_writeString s.toList
  rw [hl, List.cons_append] at hread ⊢
  rcases hq with rfl | rfl <;> simp [scalar?, hread]

theorem value?_eq_scalar? (depth : Nat) (h : ∀ l, cs ≠ '[' :: l ∧ cs ≠ '\x7b' :: l) :
    value? depth cs = scalar? cs := by
  unfold value?
  split
  · exact absurd rfl (h _).1
  · exact absurd rfl (h _).1
  · exact absurd rfl (h _).2
  · exact absurd rfl (h _).2
  · rfl

theorem value?_writeString (depth : Nat) (s : String)
    (hr : ∀ a ∈ r.head?, a ≠ '"' ∧ a ≠ '\x27') :
    value? depth (writeString s.toList ++ r) = some (.string s, r) := by
  rw [value?_eq_scalar?, scalar?_writeString s hr]
  obtain ⟨q, l, hl, hq⟩ := exists_cons_writeString s.toList
  rw [hl]
  rcases hq with rfl | rfl <;> simp

/-! ## Arrays -/

/-- Strings as they stand between the brackets of an array. -/
def listed (l : List String) : List Char :=
  [',', ' '].intercalate (l.map fun s => writeString s.toList)

theorem listed_cons_cons (s t : String) (l : List String) :
    listed (s :: t :: l) = writeString s.toList ++ (',' :: ' ' :: listed (t :: l)) := by
  simp [listed, List.intercalate_cons_cons]

theorem exists_cons_listed (s : String) (l : List String) :
    ∃ q w, listed (s :: l) = q :: w ∧ (q = '"' ∨ q = '\x27') := by
  obtain ⟨q, w, hw, hq⟩ := exists_cons_writeString s.toList
  cases l with
  | nil => exact ⟨q, w, by simp [listed, hw], hq⟩
  | cons t l => exact ⟨q, _, by rw [listed_cons_cons, hw]; rfl, hq⟩

theorem exists_cons_listed_append (l : List String) (r : List Char) :
    ∃ c w, listed l ++ ']' :: r = c :: w ∧ IsSolid c := by
  cases l with
  | nil => exact ⟨']', r, rfl, by decide⟩
  | cons s l =>
    obtain ⟨q, w, hw, hq⟩ := exists_cons_listed s l
    exact ⟨q, _, by rw [hw]; rfl, isSolid_of_quote hq⟩

variable {value : List Char → Option (Toml × List Char)} {v : Toml}

theorem arrayItems_close (h : skipSpace cs = ']' :: r) : arrayItems value cs = some ([], r) := by
  rw [arrayItems, h]
  rfl

/-- An item with the end of the array behind it. -/
theorem arrayItems_last (hopen : ∀ l, skipSpace cs ≠ ']' :: l)
    (hv : value (skipSpace cs) = some (v, ']' :: r)) : arrayItems value cs = some ([v], r) := by
  rw [arrayItems]
  split
  · exact absurd ‹_› (hopen _)
  · rw [hv]
    dsimp only
    rw [skipSpace_of_isSolid (by decide)]
    rfl

/-- An item with a comma behind it. -/
theorem arrayItems_comma (hopen : ∀ l, skipSpace cs ≠ ']' :: l)
    (hv : value (skipSpace cs) = some (v, ',' :: r)) (hlength : r.length < cs.length) :
    arrayItems value cs = (arrayItems value r).map fun m => (v :: m.1, m.2) := by
  rw [arrayItems]
  split
  · exact absurd ‹_› (hopen _)
  · rw [hv]
    dsimp only
    rw [skipSpace_of_isSolid (by decide)]
    exact dif_pos hlength

theorem arrayItems_listed (depth : Nat) (l : List String) (r : List Char) (cs : List Char)
    (hcs : skipSpace cs = listed l ++ ']' :: r) (hlength : (skipSpace cs).length ≤ cs.length) :
    arrayItems (value? depth) cs = some (l.map .string, r) := by
  induction l generalizing cs with
  | nil => exact arrayItems_close hcs
  | cons s l ih =>
    have hopen (w : List Char) : skipSpace cs ≠ ']' :: w := by
      obtain ⟨q, w', hw, hq⟩ := exists_cons_listed s l
      rw [hcs, hw]
      rcases hq with rfl | rfl <;> simp
    cases l with
    | nil =>
      have hitem : listed [s] = writeString s.toList := by simp [listed]
      refine arrayItems_last hopen ?_
      rw [hcs, hitem]
      exact value?_writeString depth s (by simp)
    | cons t l =>
      rw [arrayItems_comma hopen (r := ' ' :: (listed (t :: l) ++ ']' :: r))]
      · have hskip : skipSpace (' ' :: (listed (t :: l) ++ ']' :: r)) =
            listed (t :: l) ++ ']' :: r := by
          obtain ⟨c, w, hw, hc⟩ := exists_cons_listed_append (t :: l) r
          rw [hw]
          exact skipSpace_blank hc w
        rw [ih _ hskip (by rw [hskip]; simp)]
        rfl
      · rw [hcs, listed_cons_cons]
        simp only [List.append_assoc, List.cons_append]
        exact value?_writeString depth s (by simp)
      · rw [hcs, listed_cons_cons] at hlength
        simp only [List.length_append, List.length_cons] at hlength ⊢
        omega

/-! ## Values at the end of a line -/

/-- A value that the format can hold. -/
def Plain.IsWritable : Plain → Prop
  | .integer n => word? n = some n
  | .boolean _ => True
  | .strings _ => True

theorem scalar?_toString {n : Int} (h : word? n = some n) (r : List Char) :
    scalar? ((toString n).toList ++ '\n' :: r) = some (.integer n, '\n' :: r) := by
  rw [scalar?]
  · simp only [dateTime?_toString, float?_toString, integer?_toString h, Option.map_some]
  all_goals exact fun l => toString_append_ne rfl (by decide) n _ _

theorem toList_write_strings (l : List String) :
    (Plain.strings l).write.toList = '[' :: (listed l ++ [']']) := by
  simp [Plain.write, listed, Function.comp_def]

theorem value?_write (depth : Nat) {p : Plain} (hp : p.IsWritable) (r : List Char) :
    value? (depth + 1) (p.write.toList ++ '\n' :: r) = some (p.toToml, '\n' :: r) := by
  cases p with
  | integer n =>
    have hne (l : List Char) : (toString n).toList ++ '\n' :: r ≠ '[' :: l ∧
        (toString n).toList ++ '\n' :: r ≠ '\x7b' :: l :=
      ⟨toString_append_ne rfl (by decide) n _ l, toString_append_ne rfl (by decide) n _ l⟩
    exact (value?_eq_scalar? (depth + 1) hne).trans (scalar?_toString hp r)
  | boolean b => cases b <;> rfl
  | strings l =>
    have hskip : skipSpace (listed l ++ ']' :: '\n' :: r) = listed l ++ ']' :: '\n' :: r := by
      obtain ⟨c, w, hw, hc⟩ := exists_cons_listed_append l ('\n' :: r)
      rw [hw]
      exact skipSpace_of_isSolid hc w
    rw [toList_write_strings, List.cons_append, List.append_assoc, List.singleton_append, value?,
      arrayItems_listed depth l ('\n' :: r) _ hskip (by rw [hskip])]
    rfl

end ModelSurvey.Toml
