import ModelSurvey.Proofs.Toml.Values

/-! Written sections are read back as statements, line by line. A section is one header and one
assignment for each value; the blank line before the next section is no statement. -/
namespace ModelSurvey.Toml
set_option autoImplicit false

variable {b c : Char} {cs r : List Char} {w : String}

/-! ## Keys -/

/-- A name that needs no quotes as a key. -/
def IsBare (w : String) : Prop := w.toList ≠ [] ∧ ∀ c ∈ w.toList, isBareKeyChar c = true

instance (w : String) : Decidable (IsBare w) :=
  decidable_of_iff (w.toList ≠ [] ∧ w.toList.all isBareKeyChar = true)
    (and_congr_right fun _ => List.all_eq_true)

theorem IsBare.append_ne (h : IsBare w) (hc : isBareKeyChar c = false) (r l : List Char) :
    w.toList ++ r ≠ c :: l := by
  intro he
  obtain ⟨a, k, hk⟩ := List.exists_cons_of_ne_nil h.1
  have ha := h.2 a (hk ▸ List.mem_cons_self ..)
  rw [hk, List.cons_append, List.cons.injEq] at he
  rw [he.1, hc] at ha
  cases ha

theorem keyPart?_append (h : IsBare w) (hb : isBareKeyChar b = false) (r : List Char) :
    keyPart? (w.toList ++ b :: r) = some (w, b :: r) := by
  have htake : (w.toList ++ b :: r).takeWhile isBareKeyChar = w.toList := by
    rw [List.takeWhile_append_of_pos h.2, List.takeWhile_cons_of_neg (by simp [hb]),
      List.append_nil]
  have hdrop : (w.toList ++ b :: r).dropWhile isBareKeyChar = b :: r := by
    rw [List.dropWhile_append_of_pos h.2, List.dropWhile_cons_of_neg (by simp [hb])]
  rw [keyPart?, htake, hdrop]
  · split
    · exact absurd ‹_› h.1
    · rw [String.ofList_toList]
  · exact fun l => h.append_ne rfl _ l
  · exact fun l => h.append_ne rfl _ l

theorem skipBlanks_eq_self (h : ∀ l, cs ≠ ' ' :: l ∧ cs ≠ '\t' :: l) : skipBlanks cs = cs := by
  cases cs with
  | nil => rfl
  | cons c cs =>
    refine skipBlanks_of_not_blank ?_ cs
    rw [isSpaceOrTab, Bool.or_eq_false_iff, beq_eq_false_iff_ne, beq_eq_false_iff_ne]
    exact ⟨fun hc => (h cs).1 (hc ▸ rfl), fun hc => (h cs).2 (hc ▸ rfl)⟩

/-- A bare key, with blanks behind it or without. -/
theorem key?_append (h : IsBare w) (hb : isBareKeyChar b = false)
    (hskip : skipBlanks (b :: r) = c :: cs) (hdot : c ≠ '.') :
    key? (w.toList ++ b :: r) = some (([], w), c :: cs) := by
  have hstart : skipBlanks (w.toList ++ b :: r) = w.toList ++ b :: r :=
    skipBlanks_eq_self fun l => ⟨h.append_ne rfl _ l, h.append_ne rfl _ l⟩
  rw [key?, separated, hstart, keyPart?_append h hb, Option.map_some, hskip]
  dsimp only
  rw [dif_neg fun hsep => hdot hsep.1]
  rfl

/-! ## Lines -/

theorem skipBlanks_write (p : Plain) (r : List Char) :
    skipBlanks (p.write.toList ++ r) = p.write.toList ++ r := by
  cases p with
  | integer n =>
    exact skipBlanks_eq_self fun l =>
      ⟨toString_append_ne rfl (by decide) n r l, toString_append_ne rfl (by decide) n r l⟩
  | boolean b => cases b <;> rfl
  | strings l =>
    rw [toList_write_strings]
    exact skipBlanks_of_not_blank rfl _

theorem statement?_header (h : IsBare w) (r : List Char) :
    statement? ('[' :: (w.toList ++ ']' :: r)) = some (.header [] w, r) := by
  rw [statement?, key?_append h rfl (skipBlanks_of_not_blank rfl r) (by decide)]
  · rfl
  · exact fun l => h.append_ne rfl _ l

theorem statement?_assign (h : IsBare w) {p : Plain} (hp : p.IsWritable) (r : List Char) :
    statement? (w.toList ++ ' ' :: '=' :: ' ' :: (p.write.toList ++ '\n' :: r)) =
      some (.assign [] w p.toToml, '\n' :: r) := by
  have hskip : skipBlanks (' ' :: '=' :: ' ' :: (p.write.toList ++ '\n' :: r)) =
    '=' :: ' ' :: (p.write.toList ++ '\n' :: r) := rfl
  have hvalue : skipBlanks (' ' :: (p.write.toList ++ '\n' :: r)) = p.write.toList ++ '\n' :: r :=
    skipBlanks_write p ('\n' :: r)
  have hread : value? (nestingLimit - 1) (p.write.toList ++ '\n' :: r) =
    some (p.toToml, '\n' :: r) := value?_write 78 hp r
  rw [statement?, pair?, key?_append h rfl hskip (by decide)]
  · simp only [hvalue, hread]
    rfl
  · exact fun l => h.append_ne rfl _ _
  · exact fun l => h.append_ne rfl _ _

/-- A line with a statement, which begins with no blank. -/
theorem statements_cons {st : Statement} (hc : IsSolid c)
    (hst : statement? (c :: cs) = some (st, '\n' :: r)) (hlength : r.length < (c :: cs).length) :
    statements (c :: cs) = (statements r).map (st :: ·) := by
  have hline : lineEnd? ('\n' :: r) = some r := rfl
  have hbreak : ¬(c = '#' ∨ c = '\n' ∨ c = '\r') := by
    rintro (h | h | h)
    · exact hc.2.2.2 h
    · exact hc.2.1 h
    · exact hc.2.2.1 h
  rw [statements, skipBlanks_of_not_blank hc.1]
  dsimp only
  rw [if_neg hbreak, hst]
  dsimp only
  rw [hline]
  exact dif_pos hlength

theorem statements_newline (r : List Char) : statements ('\n' :: r) = statements r := by
  rw [statements]
  exact dif_pos (Nat.lt_succ_self _)

theorem isSolid_of_isBareKeyChar (h : isBareKeyChar c = true) : IsSolid c := by
  have hne {b : Char} (hb : isBareKeyChar b = false) : c ≠ b := by
    rintro rfl
    rw [hb] at h
    cases h
  refine ⟨?_, hne rfl, hne rfl, hne rfl⟩
  rw [isSpaceOrTab, Bool.or_eq_false_iff, beq_eq_false_iff_ne, beq_eq_false_iff_ne]
  exact ⟨hne rfl, hne rfl⟩

/-! ## Sections -/

namespace Section

/-- Bare names, keys that differ, and values that the format can hold. -/
structure IsWritable (s : Section) : Prop where
  name : IsBare s.name
  keys : ∀ a ∈ s.assignments, IsBare a.1
  values : ∀ a ∈ s.assignments, a.2.IsWritable
  distinct : (s.assignments.map Prod.fst).Nodup

/-- The lines of a section as statements. -/
def statements (s : Section) : List Statement :=
  .header [] s.name :: s.assignments.map fun a => .assign [] a.1 a.2.toToml

end Section

theorem statements_assignment (h : IsBare w) {p : Plain} (hp : p.IsWritable) (r : List Char) :
    statements (w.toList ++ ' ' :: '=' :: ' ' :: (p.write.toList ++ '\n' :: r)) =
      (statements r).map (.assign [] w p.toToml :: ·) := by
  have hst := statement?_assign h hp r
  obtain ⟨c, l, hl⟩ := List.exists_cons_of_ne_nil h.1
  have hc := h.2 c (hl ▸ List.mem_cons_self ..)
  rw [hl, List.cons_append] at hst ⊢
  refine statements_cons (isSolid_of_isBareKeyChar hc) hst ?_
  simp only [List.length_cons, List.length_append]
  omega

theorem statements_assignments {l : List (String × Plain)} (hkeys : ∀ a ∈ l, IsBare a.1)
    (hvalues : ∀ a ∈ l, a.2.IsWritable) (r : List Char) :
    statements ((String.join (l.map fun a => a.1 ++ " = " ++ a.2.write ++ "\n")).toList ++ r) =
      (statements r).map ((l.map fun a => .assign [] a.1 a.2.toToml) ++ ·) := by
  induction l with
  | nil => simp
  | cons a l ih =>
    obtain ⟨hkey, hkeys⟩ := List.forall_mem_cons.1 hkeys
    obtain ⟨hvalue, hvalues⟩ := List.forall_mem_cons.1 hvalues
    have hline (rest : List Char) : (a.1 ++ " = " ++ a.2.write ++ "\n").toList ++ rest =
        a.1.toList ++ ' ' :: '=' :: ' ' :: (a.2.write.toList ++ '\n' :: rest) := by
      simp
    rw [List.map_cons, String.join_cons, String.toList_append, List.append_assoc, hline,
      statements_assignment hkey hvalue, ih hkeys hvalues, Option.map_map]
    rfl

theorem statements_write {s : Section} (hs : s.IsWritable) (r : List Char) :
    statements (s.write.toList ++ r) = (statements r).map (s.statements ++ ·) := by
  have hheader (rest : List Char) : statements ('[' :: (s.name.toList ++ ']' :: '\n' :: rest)) =
      (statements rest).map (.header [] s.name :: ·) := by
    refine statements_cons (by decide) (statement?_header hs.name _) ?_
    simp only [List.length_cons, List.length_append]
    omega
  have hline (text : String) : ("[" ++ s.name ++ "]\n" ++ text).toList ++ r =
      '[' :: (s.name.toList ++ ']' :: '\n' :: (text.toList ++ r)) := by
    simp
  rw [Section.write, hline, hheader, statements_assignments hs.keys hs.values, Option.map_map]
  rfl

theorem statements_nil : statements [] = some [] := by
  rw [statements]
  rfl

theorem statements_writeSections {l : List Section} (hl : ∀ s ∈ l, s.IsWritable) :
    statements (writeSections l).toList = some (l.flatMap Section.statements) := by
  induction l with
  | nil => exact statements_nil
  | cons s l ih =>
    obtain ⟨hs, hl⟩ := List.forall_mem_cons.1 hl
    cases l with
    | nil =>
      have hlast := statements_write hs []
      rw [List.append_nil, statements_nil] at hlast
      rw [writeSections, List.map_singleton, String.intercalate_singleton, hlast]
      simp
    | cons t l =>
      have hjoin : (writeSections (s :: t :: l)).toList =
          s.write.toList ++ '\n' :: (writeSections (t :: l)).toList := by
        simp [writeSections, String.intercalate_cons_cons]
      rw [hjoin, statements_write hs, statements_newline, ih hl]
      rfl

end ModelSurvey.Toml
