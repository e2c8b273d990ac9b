import ModelSurvey.Proofs.Toml.Lines

/-! Written sections as a document. A header opens a table under a new name, and the assignments
behind it go to its end: the document under construction is always the sections so far, with the
last one open. -/
namespace ModelSurvey.Toml
set_option autoImplicit false

variable {key name : String} {v w : Toml} {es inner : Entries}

/-! ## Entries at the end -/

theorem lookup_eq_none_of_not_mem (h : name ∉ es.map Prod.fst) : es.lookup name = none := by
  rw [List.lookup_eq_none_iff]
  intro e he
  exact bne_iff_ne.2 fun hname => h (hname ▸ List.mem_map_of_mem he)

theorem lookup_append_self (h : name ∉ es.map Prod.fst) :
    (es ++ [(name, v)]).lookup name = some v := by
  rw [List.lookup_append, lookup_eq_none_of_not_mem h, Option.none_or, List.lookup_cons_self]

theorem replace_append_self (h : name ∉ es.map Prod.fst) :
    replace name w (es ++ [(name, v)]) = es ++ [(name, w)] := by
  have hothers : replace name w es = es := by
    refine (List.map_congr_left fun e he => if_neg ?_).trans (List.map_id es)
    rintro rfl
    exact h (List.mem_map_of_mem he)
  have hlast : replace name w [(name, v)] = [(name, w)] := by simp [replace]
  exact (List.map_append ..).trans (congrArg₂ _ hothers hlast)

/-! ## A section -/

/-- Assignments as the entries of a table. -/
def entriesOf (l : List (String × Plain)) : Entries := l.map fun a => (a.1, a.2.toToml)

/-- A section as an entry of a document. -/
def Section.entry (s : Section) : String × Toml :=
  (s.name, .table .header (entriesOf s.assignments))

namespace Draft

theorem add_header (d : Draft) (h : name ∉ d.entries.map Prod.fst) :
    d.add (.header [] name) = some ⟨d.entries ++ [(name, .table .header [])], [name]⟩ := by
  simp only [add, update, openTable, lookup_eq_none_of_not_mem h, Option.map_some, List.nil_append]

theorem add_assign (hname : name ∉ es.map Prod.fst) (hkey : key ∉ inner.map Prod.fst) :
    Draft.add ⟨es ++ [(name, .table .header inner)], [name]⟩ (.assign [] key v) =
      some ⟨es ++ [(name, .table .header (inner ++ [(key, v)]))], [name]⟩ := by
  have hinsert : insertDotted [] key v .header inner = some (inner ++ [(key, v)]) := by
    simp only [insertDotted, update, lookup_eq_none_of_not_mem hkey]
    rfl
  simp only [add, update, lookup_append_self hname, TableKind.admits, hinsert, Option.map_some,
    replace_append_self hname]
  rfl

theorem foldlM_assign (hname : name ∉ es.map Prod.fst) (l : List (String × Plain))
    (hkeys : (inner.map Prod.fst ++ l.map Prod.fst).Nodup) :
    (l.map fun a => Statement.assign [] a.1 a.2.toToml).foldlM add
        ⟨es ++ [(name, .table .header inner)], [name]⟩ =
      some ⟨es ++ [(name, .table .header (inner ++ entriesOf l))], [name]⟩ := by
  induction l generalizing inner with
  | nil => simp [entriesOf]
  | cons a l ih =>
    have hkey : a.1 ∉ inner.map Prod.fst := fun hmem =>
      (List.nodup_append.1 hkeys).2.2 a.1 hmem a.1 (List.mem_cons_self ..) rfl
    have hrest := @ih (inner ++ [(a.1, a.2.toToml)]) (by simpa using hkeys)
    rw [List.append_assoc] at hrest
    rw [List.map_cons, List.foldlM_cons, add_assign hname hkey]
    exact hrest

theorem foldlM_section {s : Section} (d : Draft) (hname : s.name ∉ d.entries.map Prod.fst)
    (hkeys : (s.assignments.map Prod.fst).Nodup) :
    s.statements.foldlM Draft.add d = some ⟨d.entries ++ [s.entry], [s.name]⟩ := by
  rw [Section.statements, List.foldlM_cons, d.add_header hname]
  exact foldlM_assign hname s.assignments hkeys

theorem foldlM_sections {l : List Section} (hl : ∀ s ∈ l, s.IsWritable) (d : Draft)
    (hnames : (d.entries.map Prod.fst ++ l.map Section.name).Nodup) :
    ∃ current, (l.flatMap Section.statements).foldlM Draft.add d =
      some ⟨d.entries ++ l.map Section.entry, current⟩ := by
  induction l generalizing d with
  | nil => exact ⟨d.current, by simp⟩
  | cons s l ih =>
    obtain ⟨hs, hl⟩ := List.forall_mem_cons.1 hl
    have hname : s.name ∉ d.entries.map Prod.fst := fun hmem =>
      (List.nodup_append.1 hnames).2.2 s.name hmem s.name (List.mem_cons_self ..) rfl
    obtain ⟨current, hrest⟩ := ih hl ⟨d.entries ++ [s.entry], [s.name]⟩
      (by simpa [Section.entry] using hnames)
    refine ⟨current, ?_⟩
    rw [List.flatMap_cons, List.foldlM_append, d.foldlM_section hname hs.distinct]
    exact hrest.trans (by rw [List.append_assoc]; rfl)

end Draft

/-! ## Documents -/

/-- A document begins with a bracket and so with no byte order mark. -/
theorem writeSections_ne_mark (l : List Section) (r : List Char) :
    (writeSections l).toList ≠ '\uFEFF' :: r := by
  cases l with
  | nil => simp [writeSections]
  | cons s l => cases l <;> simp [writeSections, Section.write, String.intercalate_cons_cons]

/-- Sections with different bare names, and bare keys and values in them that the format can hold,
are read back from their text. -/
theorem document?_writeSections {l : List Section} (hl : ∀ s ∈ l, s.IsWritable)
    (hnames : (l.map Section.name).Nodup) :
    document? (writeSections l) = some (l.map Section.entry) := by
  obtain ⟨current, hfold⟩ := Draft.foldlM_sections hl ⟨[], []⟩ hnames
  have hentries : ofStatements? (l.flatMap Section.statements) = some (l.map Section.entry) := by
    rw [ofStatements?, hfold]
    rfl
  rw [document?]
  split
  · rename_i r hmark
    exact absurd hmark (writeSections_ne_mark l r)
  · rw [statements_writeSections hl, Option.bind_some, hentries]

end ModelSurvey.Toml
