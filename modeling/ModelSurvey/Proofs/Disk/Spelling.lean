import ModelSurvey.Proofs.Disk.Reading

/-! Spellings of a path. Empty pieces and dots between slashes are no components, yet following a
path checks at each of them that it stands in a directory. So two spellings of one path may differ
in whether they lead anywhere, but never in where. -/
namespace ModelSurvey.Disk
set_option autoImplicit false

/-! ## Following one piece -/

/-- A piece that names nothing. -/
def Void (piece : String) : Prop := piece = "" ∨ piece = "."

instance (piece : String) : Decidable (Void piece) := inferInstanceAs (Decidable (_ ∨ _))

section follow

variable {d : Disk} {hops : Nat} {location : List String} {p : String}

@[simp] theorem follow_nil : d.follow hops location [] = .ok location := by rw [follow]

theorem follow_void (hdir : d.item? location = some .directory) (hv : Void p)
    (rest : List String) : d.follow hops location (p :: rest) = d.follow hops location rest := by
  unfold Void at hv
  rw [follow.eq_def]
  simp only [hdir, hv, if_true]

theorem follow_up (hdir : d.item? location = some .directory) (hroot : location ≠ [])
    (rest : List String) :
    d.follow hops location (".." :: rest) = d.follow hops location.dropLast rest := by
  have hv : ¬ (".." = "" ∨ ".." = ".") := by decide
  rw [follow.eq_def]
  simp only [hdir, hv, hroot, if_false, if_true]

theorem follow_link (hdir : d.item? location = some .directory) (hv : ¬ Void p) (hup : p ≠ "..")
    {target : List String} (hlink : d.item? (location ++ [p]) = some (.link target))
    (rest : List String) :
    d.follow (hops + 1) location (p :: rest) = d.follow hops [] (target ++ rest) := by
  unfold Void at hv
  rw [follow.eq_def]
  simp only [hdir, hv, hup, if_false, hlink]

theorem follow_name (hdir : d.item? location = some .directory) (hv : ¬ Void p) (hup : p ≠ "..")
    {item : Item} (hitem : d.item? (location ++ [p]) = some item)
    (hlink : ∀ target, item ≠ .link target) (rest : List String) :
    d.follow hops location (p :: rest) = d.follow hops (location ++ [p]) rest := by
  unfold Void at hv
  rw [follow.eq_def]
  simp only [hdir, hv, hup, if_false, hitem]
  cases item with
  | link target => exact absurd rfl (hlink target)
  | _ => rfl

theorem follow_absent (hdir : d.item? location = some .directory) (hv : ¬ Void p) (hup : p ≠ "..")
    (hitem : d.item? (location ++ [p]) = none) (rest : List String) :
    d.follow hops location (p :: rest) = .error .absent := by
  unfold Void at hv
  rw [follow.eq_def]
  simp only [hdir, hv, hup, if_false, hitem]

theorem follow_file {f : File} (hfile : d.item? location = some (.file f)) (rest : List String) :
    d.follow hops location (p :: rest) = .error .notDirectory := by
  rw [follow.eq_def]
  simp only [hfile]

end follow

/-! ## Leaving out pieces -/

/-- The second list is the first one with some void pieces left out. -/
inductive Thinner : List String → List String → Prop where
  | nil : Thinner [] []
  | keep {ps qs : List String} (p : String) : Thinner ps qs → Thinner (p :: ps) (p :: qs)
  | skip {ps qs : List String} {p : String} : Void p → Thinner ps qs → Thinner (p :: ps) qs

theorem Thinner.append_left {ps qs : List String} (h : Thinner ps qs) (front : List String) :
    Thinner (front ++ ps) (front ++ qs) := by
  induction front with
  | nil => exact h
  | cons p front ih => exact ih.keep p

/-- The pieces that name something. -/
def solid (ps : List String) : List String := ps.filter fun p => ¬ Void p

theorem thinner_solid (ps : List String) : Thinner ps (solid ps) := by
  induction ps with
  | nil => exact Thinner.nil
  | cons p ps ih =>
    by_cases h : Void p
    · rw [solid, List.filter_cons_of_neg (by simpa using h)]
      exact ih.skip h
    · rw [solid, List.filter_cons_of_pos (by simpa using h)]
      exact ih.keep p

theorem Thinner.of_not_void {p : String} {ps qs : List String} (h : Thinner (p :: ps) qs)
    (hp : ¬ Void p) : ∃ rs, qs = p :: rs ∧ Thinner ps rs := by
  cases h with
  | keep _ h => exact ⟨_, rfl, h⟩
  | skip hv _ => exact absurd hv hp

/-- Void pieces can be left out of a path that leads somewhere. -/
theorem follow_of_thinner {d : Disk} {hops : Nat} {location ps qs a : List String}
    (h : Thinner ps qs) (hp : d.follow hops location ps = .ok a) :
    d.follow hops location qs = .ok a := by
  fun_induction follow d hops location ps generalizing qs with
  | case1 hops location =>
    cases h
    rw [follow_nil]
    exact hp
  | case2 hops location p rest hdir hvoid ih =>
    cases h with
    | keep _ hq =>
      rw [follow_void hdir hvoid]
      exact ih hq hp
    | skip _ hq => exact ih hq hp
  | case4 hops location rest hdir hroot hvoid ih =>
    obtain ⟨rs, rfl, hq⟩ := h.of_not_void hvoid
    rw [follow_up hdir hroot]
    exact ih hq hp
  | case7 location p rest hdir hvoid hup target hops hlink ih =>
    obtain ⟨rs, rfl, hq⟩ := h.of_not_void hvoid
    rw [follow_link hdir hvoid hup hlink]
    exact ih (hq.append_left target) hp
  | case8 location p rest hdir hvoid hup item hops hzero hsucc hitem ih =>
    obtain ⟨rs, rfl, hq⟩ := h.of_not_void hvoid
    have hlink : ∀ target, item ≠ .link target := by
      intro target
      cases hops with
      | zero => exact hzero target rfl
      | succ hops => exact hsucc target hops rfl
    rw [follow_name hdir hvoid hup hitem hlink]
    exact ih hq hp
  | case3 | case5 | case6 | case9 | case10 => cases hp

/-! ## Components -/

open ModelSurvey.Path ModelSurvey.Text

/-- The piece that a component stands for. -/
def pieceOf : Component → String
  | .root => "/"
  | .current => "."
  | .parent => ".."
  | .name s => s

theorem void_ofList_iff (p : List Char) : Void (String.ofList p) ↔ p = [] ∨ p = ['.'] := by
  have hempty : String.ofList p = String.ofList [] ↔ p = [] := String.ofList_inj
  have hdot : String.ofList p = String.ofList ['.'] ↔ p = ['.'] := String.ofList_inj
  rw [← hempty, ← hdot]
  rfl

theorem map_pieceOf_component? (p : List Char) :
    (component? false p).map pieceOf =
      if Void (String.ofList p) then none else some (String.ofList p) := by
  simp only [component?, void_ofList_iff]
  by_cases he : p = []
  · simp [he]
  by_cases hd : p = ['.']
  · simp [hd]
  by_cases hu : p = ['.', '.']
  · subst hu
    rfl
  · simp [he, hd, hu, pieceOf]

theorem map_pieceOf_components (ps : List (List Char)) :
    (ps.filterMap (component? false)).map pieceOf = solid (ps.map String.ofList) := by
  induction ps with
  | nil => rfl
  | cons p ps ih =>
    have hp := map_pieceOf_component? p
    rw [solid] at ih ⊢
    by_cases hv : Void (String.ofList p)
    · rw [if_pos hv, Option.map_eq_none_iff] at hp
      rw [List.filterMap_cons_none hp, List.map_cons,
        List.filter_cons_of_neg (by simpa using hv), ih]
    · rw [if_neg hv] at hp
      obtain ⟨c, hc, e⟩ := Option.map_eq_some_iff.1 hp
      rw [List.filterMap_cons_some hc, List.map_cons, List.map_cons,
        List.filter_cons_of_pos (by simpa using hv), ih, e]

theorem isAbsolute_iff_of_pieces {text : String} {r : List (List Char)}
    (h : pieces (· == '/') text.toList = [] :: r) : isAbsolute text = true ↔ r ≠ [] := by
  rw [isAbsolute]
  cases ht : text.toList with
  | nil =>
    rw [ht, pieces, List.cons.injEq] at h
    simp [← h.2]
  | cons c cs =>
    rw [ht, pieces] at h
    by_cases hc : c = '/'
    · have hne := pieces_ne_nil (· == '/') cs
      rw [if_pos (by simp [hc]), List.cons.injEq] at h
      rw [h.2] at hne
      simp [hc, hne]
    · obtain ⟨w, ws, e⟩ := List.exists_cons_of_ne_nil (pieces_ne_nil (· == '/') cs)
      rw [if_neg (by simpa using hc), e, consFirst, List.cons.injEq] at h
      cases h.1

theorem filterMap_component?_of_components_eq {p q : Path} {w : List Char}
    {ws ps qs : List (List Char)} (hp : pieces (· == '/') p.text.toList = w :: ws ++ ps)
    (hq : pieces (· == '/') q.text.toList = w :: ws ++ qs) (h : p.components = q.components) :
    ps.filterMap (component? false) = qs.filterMap (component? false) := by
  rw [List.cons_append] at hp hq
  unfold components at h
  rw [hp, hq] at h
  cases w with
  | cons c cs =>
    simp only [List.filterMap_append, List.append_cancel_left_eq] at h
    exact h
  | nil =>
    have habsp := isAbsolute_iff_of_pieces hp
    have habsq := isAbsolute_iff_of_pieces hq
    -- A path with nothing but an empty piece has no component, any other of these has a root.
    by_cases hps : ws ++ ps = []
    · by_cases hqs : ws ++ qs = []
      · rw [(List.append_eq_nil_iff.1 hps).2, (List.append_eq_nil_iff.1 hqs).2]
      · simp [habsp, habsq, hps, hqs] at h
    · by_cases hqs : ws ++ qs = []
      · simp [habsp, habsq, hps, hqs] at h
      · simp only [habsp.2 hps, habsq.2 hqs, List.filterMap_append, if_true,
          List.append_cancel_left_eq] at h
        exact h

/-! ## One path, two spellings -/

variable {d : Disk} {p q : Path}

theorem piecesBelow?_eq_some_iff {ps : List String} : d.piecesBelow? p = some ps ↔
    (p.text.toList = d.top.text.toList ∧ ps = []) ∨
      ∃ r, p.text.toList = d.top.text.toList ++ '/' :: r ∧
        ps = (pieces (· == '/') r).map String.ofList := by
  have hpieces : ∀ r, pathPieces (String.ofList r) = (pieces (· == '/') r).map String.ofList := by
    intro r
    rw [pathPieces, String.toList_ofList]
  rw [piecesBelow?]
  split
  · rename_i hprefix
    obtain ⟨rest, hrest⟩ := List.isPrefixOf_iff_prefix.1 hprefix
    rw [← hrest, List.drop_left]
    split
    · simp [eq_comm]
    · simp [hpieces, eq_comm]
    · rename_i hnil hslash
      constructor
      · intro h
        cases h
      · rintro (⟨h, -⟩ | ⟨r, h, -⟩)
        · exact absurd (List.append_right_eq_self.1 h) hnil
        · exact absurd (List.append_cancel_left h) (hslash r)
  · rename_i hprefix
    constructor
    · intro h
      cases h
    · rintro (⟨h, -⟩ | ⟨r, h, -⟩)
      · exact absurd (List.isPrefixOf_iff_prefix.2 (h ▸ List.prefix_rfl)) hprefix
      · exact absurd (List.isPrefixOf_iff_prefix.2 (h ▸ List.prefix_append _ _)) hprefix

theorem pieces_of_piecesBelow? {ps : List String} (h : d.piecesBelow? p = some ps) :
    ∃ below, pieces (· == '/') p.text.toList = pieces (· == '/') d.top.text.toList ++ below ∧
      ps = below.map String.ofList := by
  rcases piecesBelow?_eq_some_iff.1 h with ⟨htext, rfl⟩ | ⟨r, htext, rfl⟩
  · exact ⟨[], by rw [htext, List.append_nil], rfl⟩
  · exact ⟨pieces (· == '/') r, by rw [htext, pieces_append_of_cut _ r rfl], rfl⟩

theorem solid_of_components_eq {ps qs : List String} (hp : d.piecesBelow? p = some ps)
    (hq : d.piecesBelow? q = some qs) (h : p.components = q.components) : solid ps = solid qs := by
  obtain ⟨below, hbelow, rfl⟩ := pieces_of_piecesBelow? hp
  obtain ⟨under, hunder, rfl⟩ := pieces_of_piecesBelow? hq
  obtain ⟨w, ws, htop⟩ := List.exists_cons_of_ne_nil (pieces_ne_nil (· == '/') d.top.text.toList)
  rw [htop] at hbelow hunder
  have hcomp := filterMap_component?_of_components_eq hbelow hunder h
  rw [← map_pieceOf_components, ← map_pieceOf_components, hcomp]

theorem follow_of_open? {a : Item} (h : d.open? p = .ok a) : ∃ location ps,
    d.piecesBelow? p = some ps ∧ d.follow linkLimit [] (solid ps) = .ok location ∧
      d.item? location = some a := by
  obtain ⟨location, hlocate, hitem⟩ := bind_eq_ok_iff.1 h
  rw [locate] at hlocate
  split at hlocate
  · cases hlocate
  · rename_i ps hps
    refine ⟨location, ps, hps, follow_of_thinner (thinner_solid ps) hlocate, ?_⟩
    split at hitem
    · rename_i b hb
      rw [hb, Except.ok.inj hitem]
    · cases hitem

/-- A path to the top and on to the name of a file there opens that file. -/
theorem open?_eq_file (front : List String) {name : String} {f : File}
    (hp : d.piecesBelow? p = some (front ++ [name])) (hfront : ∀ piece ∈ front, Void piece)
    (hname : ¬Void name) (hup : name ≠ "..") (hf : d.item? [name] = some (.file f)) :
    d.open? p = .ok (.file f) := by
  have hfollow : d.follow linkLimit [] (front ++ [name]) = .ok [name] := by
    clear hp
    induction front with
    | nil =>
      rw [List.nil_append, follow_name rfl hname hup hf (fun _ h => by cases h), follow_nil]
      rfl
    | cons piece front ih =>
      rw [List.cons_append, follow_void rfl (hfront piece (List.mem_cons_self ..))]
      exact ih fun q hq => hfront q (List.mem_cons_of_mem piece hq)
  rw [open?, locate, hp]
  dsimp only
  rw [hfollow]
  simp only [Except.bind, hf]

/-- Two spellings of a path that both lead somewhere lead to the same item. -/
theorem open?_eq_of_components_eq {a b : Item} (h : p.components = q.components)
    (hp : d.open? p = .ok a) (hq : d.open? q = .ok b) : a = b := by
  obtain ⟨location, ps, hps, hfollow, hitem⟩ := follow_of_open? hp
  obtain ⟨location', qs, hqs, hfollow', hitem'⟩ := follow_of_open? hq
  rw [solid_of_components_eq hps hqs h, hfollow', Except.ok.injEq] at hfollow
  subst hfollow
  rw [hitem, Option.some.injEq] at hitem'
  exact hitem'

/-- Two spellings of a path that can both be read give the same survey. -/
theorem readSurvey_eq_of_components_eq {limit : Nat} {x y : Survey}
    (h : p.components = q.components) (hp : d.readSurvey limit p = .ok x)
    (hq : d.readSurvey limit q = .ok y) : x = y := by
  obtain ⟨program, ⟨f, hf, -, -, hfound⟩, rfl⟩ := readSurvey_eq_ok_iff.1 hp
  obtain ⟨program', ⟨g, hg, -, -, hfound'⟩, rfl⟩ := readSurvey_eq_ok_iff.1 hq
  have hitem := open?_eq_of_components_eq h hf hg
  rw [Item.file.injEq] at hitem
  rw [← hitem, hfound, Option.some.injEq] at hfound'
  rw [hfound']

end ModelSurvey.Disk
