import ModelSurvey.Disk.Read
import ModelSurvey.Proofs.Results

/-! What it takes to read a file. A path reads as a program when it leads to a file that is within
the limit, whose bytes are UTF-8 and whose text was parsed. -/
namespace ModelSurvey.Disk
set_option autoImplicit false

/-! ## Readable files -/

variable {d : Disk} {limit : Nat} {p : Path}

/-- The path leads to a file within the limit whose text is UTF-8 and was parsed to the program. -/
def Reads (d : Disk) (limit : Nat) (p : Path) (program : Syntax.Program) : Prop :=
  ∃ f : File, d.open? p = .ok (.file f) ∧ f.source.bytes.length ≤ limit ∧
    (∃ text, Syntax.Source.decode? f.source.bytes = some text) ∧ f.program? = some program

theorem text_eq_ok_iff {item : Item} {text : String} : item.text = .ok text ↔
    ∃ f : File, item = .file f ∧ Syntax.Source.decode? f.source.bytes = some text := by
  cases item with
  | file f =>
    rw [Item.text]
    cases h : Syntax.Source.decode? f.source.bytes <;> simp [h]
  | directory | link => simp [Item.text]

theorem openWithin_eq_ok_iff {item : Item} :
    d.openWithin limit p = .ok item ↔ d.open? p = .ok item ∧ item.size ≤ limit := by
  rw [openWithin]
  cases d.open? p with
  | error f => simp
  | ok opened =>
    by_cases h : limit < opened.size
    · simp only [if_pos h, Except.ok.injEq, reduceCtorEq, false_iff]
      rintro ⟨rfl, hsize⟩
      omega
    · simp only [if_neg h, Except.ok.injEq, iff_self_and]
      rintro rfl
      omega

theorem readProgram_eq_ok_iff {program : Syntax.Program} :
    d.readProgram limit p = .ok program ↔ d.Reads limit p program := by
  rw [readProgram, bind_eq_ok_iff]
  constructor
  · rintro ⟨item, hitem, hprogram⟩
    obtain ⟨hopen, hsize⟩ := openWithin_eq_ok_iff.1 hitem
    split at hprogram
    · cases hprogram
    · rename_i text f htext
      obtain ⟨g, hg, hdecode⟩ := text_eq_ok_iff.1 htext
      cases hg
      split at hprogram
      · rename_i found hfound
        cases hprogram
        exact ⟨f, hopen, hsize, ⟨text, hdecode⟩, hfound⟩
      · cases hprogram
    · cases hprogram
  · rintro ⟨f, hopen, hsize, ⟨text, hdecode⟩, hprogram⟩
    refine ⟨.file f, openWithin_eq_ok_iff.2 ⟨hopen, hsize⟩, ?_⟩
    simp only [text_eq_ok_iff.2 ⟨f, rfl, hdecode⟩, hprogram]

theorem Reads.unique {program program' : Syntax.Program} (h : d.Reads limit p program)
    (h' : d.Reads limit p program') : program = program' := by
  rw [← readProgram_eq_ok_iff] at h h'
  rw [h, Except.ok.injEq] at h'
  exact h'

theorem readSurvey_eq_ok_iff {survey : Survey} : d.readSurvey limit p = .ok survey ↔
    ∃ program, d.Reads limit p program ∧ Survey.ofStatements program.statements = survey := by
  rw [readSurvey, map_eq_ok_iff]
  simp only [readProgram_eq_ok_iff]

end ModelSurvey.Disk
