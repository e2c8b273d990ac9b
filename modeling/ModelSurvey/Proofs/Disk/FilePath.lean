import ModelSurvey.Proofs.Disk.Spelling

/-! Paths that end in a name. Following one of them, every void piece is checked against the
directory that the next piece is looked up in, so all spellings of such a path lead to the same
item, or fail for the same reason. A file that can be read from one can be read from each of them. -/
namespace ModelSurvey.Disk
set_option autoImplicit false
open ModelSurvey.Path ModelSurvey.Text

/-! ## Void pieces before a name -/

/-- The second list is the first one with some void pieces left out, but none behind the last name. -/
inductive Tighter : List String → List String → Prop where
  | nil : Tighter [] []
  | keep {ps qs : List String} (p : String) : Tighter ps qs → Tighter (p :: ps) (p :: qs)
  | skip {ps qs : List String} {p q : String} :
      Void p → Tighter ps (q :: qs) → Tighter (p :: ps) (q :: qs)

theorem Tighter.refl (ps : List String) : Tighter ps ps := by
  induction ps with
  | nil => exact .nil
  | cons p ps ih => exact ih.keep p

theorem Tighter.append_left {ps qs : List String} (h : Tighter ps qs) (front : List String) :
    Tighter (front ++ ps) (front ++ qs) := by
  induction front with
  | nil => exact h
  | cons p front ih => exact ih.keep p

theorem tighter_solid {name : String} (hname : ¬Void name) (front : List String) :
    Tighter (front ++ [name]) (solid (front ++ [name])) := by
  induction front with
  | nil =>
    rw [List.nil_append, solid, List.filter_cons_of_pos (by simpa using hname), List.filter_nil]
    exact .refl [name]
  | cons p front ih =>
    rw [List.cons_append, solid]
    by_cases h : Void p
    · rw [List.filter_cons_of_neg (by simpa using h), ← solid]
      have hmem : name ∈ solid (front ++ [name]) :=
        List.mem_filter.2 ⟨by simp, by simpa using hname⟩
      obtain ⟨q, qs, hq⟩ := List.exists_cons_of_ne_nil (List.ne_nil_of_mem hmem)
      rw [hq] at ih ⊢
      exact .skip h ih
    · rw [List.filter_cons_of_pos (by simpa using h), ← solid]
      exact ih.keep p

theorem Tighter.of_not_void {p : String} {ps qs : List String} (h : Tighter (p :: ps) qs)
    (hp : ¬Void p) : ∃ rs, qs = p :: rs ∧ Tighter ps rs := by
  cases h with
  | keep _ h => exact ⟨_, rfl, h⟩
  | skip hv _ => exact absurd hv hp

theorem Tighter.exists_cons {p : String} {ps qs : List String} (h : Tighter (p :: ps) qs) :
    ∃ q rs, qs = q :: rs := by
  cases h with
  | keep _ _ => exact ⟨_, _, rfl⟩
  | skip _ _ => exact ⟨_, _, rfl⟩

/-- Void pieces before a name can be left out, whether the path leads somewhere or not. -/
theorem follow_eq_of_tighter (d : Disk) (hops : Nat) (location : List String)
    {ps qs : List String} (h : Tighter ps qs) :
    d.follow hops location ps = d.follow hops location qs := by
  fun_induction follow d hops location ps generalizing qs with
  | case1 hops location =>
    cases h
    rw [follow_nil]
  | case2 hops location p rest hdir hvoid ih =>
    cases h with
    | keep _ hq =>
      rw [follow_void hdir hvoid]
      exact ih hq
    | skip _ hq => exact ih hq
  | case3 hops rest hdir hvoid =>
    obtain ⟨rs, rfl, -⟩ := h.of_not_void hvoid
    rw [follow.eq_def]
    simp only [hdir, hvoid, if_false, if_true]
  | case4 hops location rest hdir hroot hvoid ih =>
    obtain ⟨rs, rfl, hq⟩ := h.of_not_void hvoid
    rw [follow_up hdir hroot]
    exact ih hq
  | case5 hops location p rest hdir hvoid hup hnone =>
    obtain ⟨rs, rfl, -⟩ := h.of_not_void hvoid
    rw [follow.eq_def]
    simp only [hdir, hvoid, hup, hnone, if_false]
  | case6 location p rest hdir hvoid hup target hlink =>
    obtain ⟨rs, rfl, -⟩ := h.of_not_void hvoid
    rw [follow.eq_def]
    simp only [hdir, hvoid, hup, hlink, if_false]
  | case7 location p rest hdir hvoid hup target hops hlink ih =>
    obtain ⟨rs, rfl, hq⟩ := h.of_not_void hvoid
    rw [follow_link hdir hvoid hup hlink]
    exact ih (hq.append_left target)
  | case8 location p rest hdir hvoid hup item hops hzero hsucc hitem ih =>
    obtain ⟨rs, rfl, hq⟩ := h.of_not_void hvoid
    have hlink : ∀ target, item ≠ .link target := by
      intro target
      cases hops with
      | zero => exact hzero target rfl
      | succ hops => exact hsucc target hops rfl
    rw [follow_name hdir hvoid hup hitem hlink]
    exact ih hq
  | case9 hops location p rest f hfile =>
    obtain ⟨q, rs, rfl⟩ := h.exists_cons
    rw [follow_file hfile]
  | case10 hops location p rest hdir hfile =>
    obtain ⟨q, rs, rfl⟩ := h.exists_cons
    rw [follow.eq_def]
    dsimp only
    split
    · rename_i h
      exact absurd h hdir
    · rename_i f h
      exact absurd h (hfile f)
    · rfl

/-! ## Spellings of one file -/

variable {d : Disk} {limit : Nat} {p q : Path}

/-- The path lies below the top directory and ends in a name. -/
def NamesFile (d : Disk) (p : Path) : Prop :=
  ∃ front name, d.piecesBelow? p = some (front ++ [name]) ∧ ¬Void name

theorem NamesFile.locate_eq (hp : d.NamesFile p) :
    ∃ ps, d.piecesBelow? p = some ps ∧ d.locate p = d.follow linkLimit [] (solid ps) := by
  obtain ⟨front, name, hpieces, hname⟩ := hp
  refine ⟨front ++ [name], hpieces, ?_⟩
  rw [locate, hpieces]
  exact follow_eq_of_tighter d linkLimit [] (tighter_solid hname front)

theorem NamesFile.open?_eq (hp : d.NamesFile p) (hq : d.NamesFile q)
    (h : p.components = q.components) : d.open? p = d.open? q := by
  obtain ⟨ps, hps, hlocate⟩ := hp.locate_eq
  obtain ⟨qs, hqs, hlocate'⟩ := hq.locate_eq
  rw [open?, open?, hlocate, hlocate', solid_of_components_eq hps hqs h]

theorem NamesFile.reads_congr (hp : d.NamesFile p) (hq : d.NamesFile q)
    (h : p.components = q.components) {program : Syntax.Program} :
    d.Reads limit p program ↔ d.Reads limit q program := by
  rw [Reads, Reads, hp.open?_eq hq h]

end ModelSurvey.Disk
