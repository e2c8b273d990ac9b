import ModelSurvey.Analysis
import ModelSurvey.Proofs.Disk.Discovered
import ModelSurvey.Proofs.Text.SnakeCase

/-! Paths of model classes. Joining a relative path adds its components to those of the base, and the
snake case of a class name has one component for each segment of the name. -/
namespace ModelSurvey
set_option autoImplicit false
open Text

/-! ## Components of joined paths -/

namespace Path

variable {p : Path} {text : String} {v w : List Char} {vs ws : List (List Char)}

theorem isAbsolute_iff_of_ne_nil (hne : text.toList ≠ [])
    (h : pieces (· == '/') text.toList = w :: ws) : isAbsolute text = true ↔ w = [] := by
  obtain ⟨c, cs, hcs⟩ := List.exists_cons_of_ne_nil hne
  rw [isAbsolute, hcs, List.head?_cons, beq_iff_eq, Option.some_inj]
  rw [hcs, pieces] at h
  split at h
  · rename_i hc
    cases h
    simpa using hc
  · rename_i hc
    have hw : w ≠ [] := by
      rintro rfl
      cases hrest : pieces (· == '/') cs <;> rw [hrest, consFirst] at h <;> cases h
    simpa [hw] using hc

theorem components_of_pieces (hne : p.text.toList ≠ [])
    (h : pieces (· == '/') p.text.toList = v :: vs) :
    p.components =
      (if v = [] then [.root] else (component? true v).toList) ++
        vs.filterMap (component? false) := by
  have habsolute := isAbsolute_iff_of_ne_nil hne h
  unfold components
  cases v with
  | nil => simp only [h, habsolute, if_true]
  | cons c r => rw [h, if_neg (List.cons_ne_nil c r)]

theorem components_join (base : Path) (h : pieces (· == '/') text.toList = w :: ws) (hw : w ≠ [])
    (hdot : w ≠ ['.']) :
    (base.join text).components = base.components ++ (w :: ws).filterMap (component? false) := by
  have hne : text.toList ≠ [] := by
    intro he
    rw [he] at h
    cases h
    exact hw rfl
  have hrelative : ¬isAbsolute text = true := mt (isAbsolute_iff_of_ne_nil hne h).1 hw
  by_cases hbase : base.text.toList = []
  · obtain ⟨front⟩ := base
    obtain rfl : front = "" := String.toList_eq_nil_iff.1 hbase
    have hjoin : join ⟨""⟩ text = ⟨text⟩ := by
      rw [join, if_neg hrelative]
      simp
    have hfirst : component? true w = component? false w := by simp [component?, hdot]
    rw [hjoin, components_of_pieces hne h, if_neg hw, hfirst]
    cases hc : component? false w <;> simp [hc, components, pieces, isAbsolute]
  · obtain ⟨stem, hjoin, hstem⟩ := Disk.text_join hbase hrelative
    obtain ⟨v, vs, hv⟩ := List.exists_cons_of_ne_nil (pieces_ne_nil (· == '/') stem)
    have hpieces : pieces (· == '/') (base.join text).text.toList = v :: (vs ++ w :: ws) := by
      rw [hjoin, pieces_append_of_cut _ _ rfl, hv, h, List.cons_append]
    have hbasePieces : ∃ us, pieces (· == '/') base.text.toList = v :: us ∧
        us.filterMap (component? false) = vs.filterMap (component? false) := by
      rcases hstem with hstem | hstem
      · exact ⟨vs, by rw [hstem, hv], rfl⟩
      · refine ⟨vs ++ [[]], by rw [hstem, pieces_append_of_cut _ _ rfl, hv]; rfl, ?_⟩
        rw [List.filterMap_append]
        exact List.append_nil _
    obtain ⟨us, hus, hsame⟩ := hbasePieces
    have hjoinNe : (base.join text).text.toList ≠ [] := by
      rw [hjoin]
      simp
    rw [components_of_pieces hjoinNe hpieces, components_of_pieces hbase hus, hsame,
      List.filterMap_append, List.append_assoc]

theorem pieces_intercalate (hne : ws ≠ []) (h : ∀ w ∈ ws, '/' ∉ w) :
    pieces (· == '/') (['/'].intercalate ws) = ws := by
  induction ws with
  | nil => exact absurd rfl hne
  | cons w ws ih =>
    obtain ⟨hw, hws⟩ := List.forall_mem_cons.1 h
    by_cases hlast : ws = []
    · subst hlast
      rw [List.intercalate_singleton, Disk.pieces_eq_singleton hw]
    · rw [List.intercalate_cons_of_ne_nil hlast, List.append_assoc, List.singleton_append,
        pieces_append_of_cut _ _ rfl, Disk.pieces_eq_singleton hw, ih hlast hws]
      rfl

theorem component?_of_isLower {c : Char} {r : List Char} (h : c.isLower = true) (first : Bool) :
    component? first (c :: r) = some (.name (String.ofList (c :: r))) := by
  have hdot : c ≠ '.' := by
    rintro rfl
    cases h
  simp [component?, hdot]

end Path

/-! ## Class names -/

theorem intercalate_concat_append {sep l s : List Char} (front : List (List Char)) :
    sep.intercalate (front ++ [l]) ++ s = sep.intercalate (front ++ [l ++ s]) := by
  induction front with
  | nil => simp
  | cons w front ih =>
    have hne (x : List Char) : front ++ [x] ≠ [] := by simp
    rw [List.cons_append, List.cons_append, List.intercalate_cons_of_ne_nil (hne _),
      List.intercalate_cons_of_ne_nil (hne _), List.append_assoc, ih]

/-- A name that is one component of a path: it holds no slash and begins with a small letter. -/
def IsSmallName (name : String) : Prop :=
  ∃ c r, name.toList = c :: r ∧ c.isLower = true ∧ '/' ∉ c :: r

theorem IsSmallName.append {name s : String} (h : IsSmallName name) (hs : '/' ∉ s.toList) :
    IsSmallName (name ++ s) := by
  obtain ⟨c, r, hname, hc, hslash⟩ := h
  refine ⟨c, r ++ s.toList, by rw [String.toList_append, hname, List.cons_append], hc, ?_⟩
  rw [← List.cons_append, List.mem_append, not_or]
  exact ⟨hslash, hs⟩

/-- Joined names have one component each, whatever they are joined to. -/
theorem components_join_names (base : Path) (names : List String) (hne : names ≠ [])
    (h : ∀ name ∈ names, IsSmallName name) :
    (base.join ("/".intercalate names)).components = base.components ++ names.map .name := by
  have hslash : ∀ w ∈ names.map String.toList, '/' ∉ w := by
    intro w hw
    obtain ⟨name, hname, rfl⟩ := List.mem_map.1 hw
    obtain ⟨c, r, he, -, hslash⟩ := h name hname
    rwa [he]
  have hpieces : pieces (· == '/') ("/".intercalate names).toList = names.map String.toList := by
    rw [String.toList_intercalate]
    exact Path.pieces_intercalate (mt List.map_eq_nil_iff.1 hne) hslash
  have hcomponent : ∀ name ∈ names, Path.component? false name.toList = some (.name name) := by
    intro name hname
    obtain ⟨c, r, he, hc, -⟩ := h name hname
    rw [he, Path.component?_of_isLower hc, ← he, String.ofList_toList]
  obtain ⟨name, rest, rfl⟩ := List.exists_cons_of_ne_nil hne
  obtain ⟨c, r, he, hc, -⟩ := h name (List.mem_cons_self ..)
  have hdot : name.toList ≠ ['.'] := by
    rw [he]
    rintro hdot
    cases hdot
    cases hc
  have hmap : (name :: rest).filterMap (Path.component? false ∘ String.toList) =
      (name :: rest).map .name := List.filterMap_eq_map_iff_forall_eq_some.2 hcomponent
  rw [Path.components_join base hpieces (by rw [he]; exact List.cons_ne_nil c r) hdot,
    ← List.map_cons, List.filterMap_map, hmap]

theorem components_join_name (base : Path) {name : String} (h : IsSmallName name) :
    (base.join name).components = base.components ++ [.name name] := by
  have hjoin := components_join_names base [name] (List.cons_ne_nil name [])
    fun _ hname => List.mem_singleton.1 hname ▸ h
  rwa [String.intercalate_singleton] at hjoin

theorem components_modelPath (root : Path) {name : String} {front : List String} {last : String}
    (hname : underscore name = "/".intercalate (front ++ [last]))
    (h : ∀ piece ∈ front ++ [last], IsSmallName piece) :
    (Analyzer.modelPath root name).components =
      root.components ++ ("app" :: "models" :: front ++ [last ++ ".rb"]).map .name := by
  have happ : IsSmallName "app" := ⟨_, _, rfl, rfl, by decide⟩
  have hmodels : IsSmallName "models" := ⟨_, _, rfl, rfl, by decide⟩
  have hfile : underscore name ++ ".rb" = "/".intercalate (front ++ [last ++ ".rb"]) := by
    rw [hname, ← String.toList_inj]
    simp [String.toList_intercalate, intercalate_concat_append]
  have hpieces : ∀ piece ∈ front ++ [last ++ ".rb"], IsSmallName piece := by
    intro piece hpiece
    rcases List.mem_append.1 hpiece with hfront | hlast
    · exact h piece (List.mem_append_left _ hfront)
    · rw [List.mem_singleton.1 hlast]
      exact (h last (by simp)).append (by decide)
  rw [Analyzer.modelPath, hfile, components_join_names _ _ (by simp) hpieces,
    components_join_name _ hmodels, components_join_name _ happ]
  simp

/-- A class name is written word by word and segment by segment, with or without a mark in front,
and the file of the class has one component for each segment below the directory of models. Snake
case of any text is written in snake case already. -/
theorem class_names_lead_to_paths :
    (∀ segments : List (List String), segments ≠ [] →
      (∀ words ∈ segments, words ≠ [] ∧ CamelWords (words.map String.toList)) →
      ∀ name ∈ [Name.join (segments.map String.join),
          Name.mark ++ Name.join (segments.map String.join)],
        underscore name = "/".intercalate (segments.map snakeSegment) ∧
        ∃ front last, segments.map snakeSegment = front ++ [last] ∧
          ∀ root : Path, (Analyzer.modelPath root name).components =
            root.components ++ ("app" :: "models" :: front ++ [last ++ ".rb"]).map .name) ∧
    ∀ name : String,
      underscore (underscore name) = underscore name ∧
      (∀ c ∈ (underscore name).toList, c.isUpper = false ∧ c ≠ '-') ∧
      ¬[':', ':'] <:+: (underscore name).toList := by
  refine ⟨fun segments hne h name hname => ?_, fun name => ?_⟩
  · have hunderscore : underscore name = "/".intercalate (segments.map snakeSegment) := by
      rw [List.mem_cons, List.mem_singleton] at hname
      rcases hname with rfl | rfl
      · exact underscore_segments hne h
      · rw [underscore_mark_append, underscore_segments hne h]
    obtain ⟨front, last, hsplit⟩ : ∃ front last, segments.map snakeSegment = front ++ [last] := by
      rcases List.eq_nil_or_concat (segments.map snakeSegment) with hnil | ⟨front, last, hsplit⟩
      · exact absurd (List.map_eq_nil_iff.1 hnil) hne
      · exact ⟨front, last, by rw [hsplit, List.concat_eq_append]⟩
    refine ⟨hunderscore, front, last, hsplit, fun root => ?_⟩
    refine components_modelPath root (hsplit ▸ hunderscore) fun piece hpiece => ?_
    rw [← hsplit] at hpiece
    obtain ⟨words, hwords, rfl⟩ := List.mem_map.1 hpiece
    exact exists_cons_snakeSegment (h words hwords).1 (h words hwords).2
  · exact ⟨underscore_idem name, fun c hc => isSnake_of_mem_underscore hc,
      (noMark_underscore name).no_double_colon⟩

/-- Acronyms before and behind a capitalised word that ends in a digit. -/
def parserSegments : List (List String) := [["Shop"], ["HTML", "Parser2", "API"]]

theorem class_names_lead_to_paths_shop :
    (∀ words ∈ parserSegments, words ≠ [] ∧ CamelWords (words.map String.toList)) ∧
    underscore "::Shop::HTMLParser2API" = "shop/html_parser2_api" ∧
    (Analyzer.modelPath ⟨"/srv/"⟩ "::Shop::HTMLParser2API").components =
      [.root, .name "srv", .name "app", .name "models", .name "shop",
        .name "html_parser2_api.rb"] ∧
    '2' ∈ (underscore "HTMLParser2API").toList ∧ '2' ≠ '-' := by
  have hshop : IsCapitalised ['S', 'h', 'o', 'p'] :=
    ⟨'S', 'h', ['o', 'p'], rfl, rfl, rfl, by simp [IsSmall]⟩
  have hparser : IsCapitalised ['P', 'a', 'r', 's', 'e', 'r', '2'] :=
    ⟨'P', 'a', ['r', 's', 'e', 'r', '2'], rfl, rfl, rfl, by simp [IsSmall]⟩
  have hnot : ¬IsAcronym ['P', 'a', 'r', 's', 'e', 'r', '2'] := fun h =>
    absurd (h.2 'a' (by decide)) (by decide)
  have hhtml : IsAcronym ['H', 'T', 'M', 'L'] := ⟨List.cons_ne_nil _ _, by simp⟩
  have hapi : IsAcronym ['A', 'P', 'I'] := ⟨List.cons_ne_nil _ _, by simp⟩
  have hsegments : ∀ words ∈ parserSegments,
      words ≠ [] ∧ CamelWords (words.map String.toList) := by
    simp only [parserSegments, List.forall_mem_cons, List.not_mem_nil, false_implies, implies_true,
      and_true]
    exact ⟨⟨by simp, by simp [hshop], by simp⟩,
      by simp, by simp [hhtml, hparser, hapi], by simp [hnot]⟩
  obtain ⟨hname, front, last, hsplit, hpath⟩ := class_names_lead_to_paths.1 parserSegments
    (List.cons_ne_nil _ _) hsegments "::Shop::HTMLParser2API" (by decide +kernel)
  have hmem : '2' ∈ (underscore "HTMLParser2API").toList := by decide +kernel
  refine ⟨hsegments, hname.trans (by decide +kernel), ?_, hmem,
    ((class_names_lead_to_paths.2 "HTMLParser2API").2.1 '2' hmem).2⟩
  have hparts : front = ["shop"] ∧ last = "html_parser2_api" := by
    have hnames : parserSegments.map snakeSegment = ["shop"] ++ ["html_parser2_api"] := by
      decide +kernel
    rw [hnames] at hsplit
    have hsame := List.append_inj' hsplit rfl
    exact ⟨hsame.1.symm, (List.singleton_inj.1 hsame.2).symm⟩
  rw [hpath, hparts.1, hparts.2]
  decide +kernel

end ModelSurvey
