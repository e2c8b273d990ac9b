import ModelSurvey.Proofs.Declaration.CompactNames
import ModelSurvey.Proofs.Registry.Lookup

/-! What a constant path means where it defines a class and where it refers to one. A definition is
recorded below the context that it stands in, rooted or not; a reference reads an unrooted path
below the context first, and a rooted one at the top level only. So the two agree for unrooted
paths and at the top level, and nowhere else. -/
namespace ModelSurvey
set_option autoImplicit false
open Syntax

namespace Name

/-! ## Joined names -/

theorem join_append_join (l : List String) {m : List String} (h : m ≠ []) :
    join (l ++ [join m]) = join (l ++ m) := by
  induction l with
  | nil => simp [join]
  | cons s l ih =>
    obtain ⟨t, r, hleft⟩ := List.exists_cons_of_ne_nil
      (List.append_ne_nil_of_right_ne_nil l (List.cons_ne_nil (join m) []))
    obtain ⟨u, q, hright⟩ := List.exists_cons_of_ne_nil (List.append_ne_nil_of_right_ne_nil l h)
    rw [hleft, hright] at ih
    rw [List.cons_append, List.cons_append, hleft, hright, join, join,
      String.intercalate_cons_cons, String.intercalate_cons_cons]
    exact congrArg (s ++ mark ++ ·) ih

theorem length_join_lt (s : String) (l : List String) {m : List String} (h : m ≠ []) :
    (join m).length < (join (s :: l ++ m)).length := by
  induction l generalizing s with
  | nil =>
    obtain ⟨t, r, rfl⟩ := List.exists_cons_of_ne_nil h
    rw [List.cons_append, List.nil_append, ← String.length_toList, ← String.length_toList,
      toList_join_cons, List.length_append, List.length_cons, List.length_cons]
    omega
  | cons t l ih =>
    have hrest := ih t
    rw [List.cons_append, List.cons_append, ← String.length_toList, ← String.length_toList] at *
    rw [toList_join_cons, List.length_append, List.length_cons, List.length_cons]
    omega

theorem join_append_eq_iff (l : List String) {m : List String} (h : m ≠ []) :
    join (l ++ m) = join m ↔ l = [] := by
  constructor
  · intro heq
    cases l with
    | nil => rfl
    | cons s l =>
      have hlt := length_join_lt s l h
      rw [heq] at hlt
      exact absurd hlt (Nat.lt_irrefl _)
  · rintro rfl
    rfl

theorem not_rooted_join {segments : List String} (h : Plain segments) :
    ¬Rooted (join segments) := by
  rintro ⟨rest, hrest⟩
  have hchars : (join segments).toList = ':' :: ':' :: rest.toList := by
    rw [hrest, String.toList_append]
    rfl
  cases segments with
  | nil => cases hchars
  | cons s r =>
    obtain ⟨c, cs, hc, hjoin⟩ := exists_toList_join h
    rw [hjoin] at hchars
    exact hc (List.cons.inj hchars).1

end Name

/-! ## Constant paths -/

/-- Whether a path of constants begins at the top level. -/
def Syntax.Node.isRooted : Node → Bool
  | .constantPath none _ => true
  | .constantPath (some outer) _ => outer.isRooted
  | _ => false

theorem tokens_ne_nil {n : Node} {name : String} (h : n.path? = some name) : n.tokens ≠ [] := by
  fun_cases Node.path? n with
  | case1 token => simp [Node.tokens]
  | case2 token => simp [Node.tokens]
  | case3 outer token => simp [Node.tokens]
  | case4 => simp [Node.path?] at h

theorem path_eq_join {n : Node} {name : String} (h : n.path? = some name) :
    name = if n.isRooted then Name.mark ++ Name.join n.tokens else Name.join n.tokens := by
  fun_induction Node.path? n generalizing name with
  | case1 token =>
    cases h
    simp [Node.isRooted, Node.tokens, Name.join]
  | case2 token =>
    cases h
    simp [Node.isRooted, Node.tokens, Name.join]
  | case3 outer token ih =>
    obtain ⟨front, hfront, rfl⟩ := Option.map_eq_some_iff.1 h
    rw [ih hfront, Node.tokens, Name.join_concat (tokens_ne_nil hfront), Node.isRooted]
    split
    · simp only [String.append_assoc]
    · rfl
  | case4 => cases h

theorem nameSegments_of_path? {n : Node} {name : String} (h : n.path? = some name)
    (hplain : Name.Plain n.tokens) : nameSegments n = n.tokens := by
  rw [nameSegments_of_evaluate (evaluate_of_path? h), path_eq_join h]
  split
  · rw [Name.segments_mark_append, Name.segments_join hplain]
  · rw [Name.segments_join hplain]

/-! ## Definition and reference -/

theorem head?_candidates {n : Node} {name : String} (h : n.path? = some name)
    (hplain : Name.Plain n.tokens) (context : List String) :
    (Name.candidates name context).head? =
      some (if n.isRooted then Name.join n.tokens else Name.join (context ++ n.tokens)) := by
  rw [path_eq_join h]
  split
  · rw [Name.candidates_rooted, List.head?_cons]
  · rw [Name.candidates_of_not_rooted (Name.not_rooted_join hplain), List.head?_map,
      List.head?_eq_getElem?, Name.getElem?_enclosing _ 0 (Nat.zero_le _), Nat.sub_zero,
      List.take_length, Option.map_some, Name.join_append_join _ (tokens_ne_nil h)]

theorem head?_candidates_eq_iff {n : Node} {name : String} (h : n.path? = some name)
    (hplain : Name.Plain n.tokens) (context : List String) :
    (Name.candidates name context).head? = some (Name.join (context ++ n.tokens)) ↔
      (n.isRooted = true → context = []) := by
  rw [head?_candidates h hplain, Option.some_inj]
  split
  · rename_i hrooted
    rw [eq_comm, Name.join_append_eq_iff _ (tokens_ne_nil h)]
    exact ⟨fun he _ => he, fun he => he hrooted⟩
  · rename_i hrooted
    exact ⟨fun _ hr => absurd hr hrooted, fun _ => rfl⟩

/-- A reference finds a definition under its first candidate, before all others. -/
theorem resolve_of_head? {known : Registry} {name found : String} {context : List String}
    {e : Registry.Entry} (h : (Name.candidates name context).head? = some found)
    (he : known.get? found = some e) : known.resolve name context = some ⟨found, e⟩ := by
  obtain ⟨rest, hrest⟩ := List.head?_eq_some_iff.1 h
  rw [Registry.resolve, hrest, List.findSome?_cons, Registry.find?, he]
  rfl

theorem resolve_recorded_iff {n : Node} {name : String} (h : n.path? = some name)
    (hplain : Name.Plain n.tokens) {context : List String} {known : Registry} {e : Registry.Entry}
    (he : known.get? (Name.join (context ++ n.tokens)) = some e) :
    known.resolve name context = some ⟨Name.join (context ++ n.tokens), e⟩ ↔
      (n.isRooted = true → context = []) := by
  constructor
  · intro hresolve hrooted
    rw [path_eq_join h, if_pos hrooted, Registry.resolve_rooted,
      Registry.find?_eq_some_iff] at hresolve
    exact (Name.join_append_eq_iff _ (tokens_ne_nil h)).1 hresolve.1
  · intro hagree
    exact resolve_of_head? ((head?_candidates_eq_iff h hplain context).2 hagree) he

/-- A class or module is recorded under the first candidate for its name, and a reference by that
name finds it, exactly if the name is not rooted or it stands at the top level. -/
theorem recorded_iff_first_candidate (r : Recorder) (kind : NamespaceKind) (n : Node)
    (superclass : Option Node) (body : List Node) (line : Nat) {name : String}
    (hname : n.path? = some name) (hplain : Name.Plain n.tokens) :
    let recorded := Name.join (r.scope ++ n.tokens)
    n.evaluate = some (.string name) ∧
    (r.visit (.space ⟨kind, n, superclass, body, line⟩)).definitions[r.definitions.length]? =
      some ⟨recorded, kind, line⟩ ∧
    (Name.candidates name r.scope).head? =
      some (if n.isRooted then Name.join n.tokens else recorded) ∧
    ((Name.candidates name r.scope).head? = some recorded ↔ (n.isRooted = true → r.scope = [])) ∧
    ∀ (known : Registry) (e : Registry.Entry), known.get? recorded = some e →
      (known.resolve name r.scope = some ⟨recorded, e⟩ ↔ (n.isRooted = true → r.scope = [])) := by
  intro recorded
  refine ⟨evaluate_of_path? hname, ?_, head?_candidates hname hplain r.scope,
    head?_candidates_eq_iff hname hplain r.scope, fun known e => resolve_recorded_iff hname hplain⟩
  have hdefined : (r.visit (.space ⟨kind, n, superclass, body, line⟩)).definitions =
      r.definitions ++ ⟨recorded, kind, line⟩ ::
        (insideFindings r.scope n.tokens superclass body).filterMap Finding.definition? := by
    rw [Recorder.visit_eq, findings_space_of_segments r.scope (nameSegments_of_path? hname hplain)]
    rfl
  rw [hdefined, List.getElem?_append_right (Nat.le_refl _), Nat.sub_self, List.getElem?_cons_zero]

/-- A class inside a module defines a module by a rooted name. -/
def rootedInside : List Node :=
  let inner : Node := .space ⟨.moduleBody, .constantPath none "Foo", none, [.call (.bare "x" 3)], 3⟩
  [.space ⟨.moduleBody, .constant "Outer", none,
    [.space ⟨.classBody, .constant "Inner", some (.constant "Base"), [inner], 2⟩], 1⟩]

theorem rootedInside_recorded_below :
    let survey := Survey.ofStatements rootedInside
    let known := survey.definitions.foldl
      (fun r (d : Definition) => r.define ⟨d.name, d.kind, none, true⟩) (∅ : Registry)
    survey.definitions.map (·.name) = ["Outer", "Outer::Inner", "Outer::Inner::Foo"] ∧
    (survey.table.bucket "Outer::Inner::Foo").map (·.name) = ["x"] ∧
    (Node.constantPath none "Foo").evaluate = some (.string "::Foo") ∧
    Name.candidates "::Foo" ["Outer", "Inner"] = ["Foo"] ∧
    known.resolve "::Foo" ["Outer", "Inner"] = none ∧
    (known.get? "Outer::Inner::Foo").isSome = true := by
  decide +kernel

theorem recorded_iff_first_candidate_admin :
    let r : Recorder := ⟨["Shop"], ∅, []⟩
    let n := compactName ["Admin"] "Order"
    n.path? = some "Admin::Order" ∧ Name.Plain n.tokens ∧
    (r.visit (.space ⟨.classBody, n, none, [], 1⟩)).definitions[0]? =
      some ⟨"Shop::Admin::Order", .classBody, 1⟩ ∧
    (Name.candidates "Admin::Order" ["Shop"]).head? = some "Shop::Admin::Order" := by
  intro r n
  have hname : n.path? = some "Admin::Order" := by decide +kernel
  have hplain : Name.Plain n.tokens := by
    intro s hs
    have hmem : s ∈ ["Admin", "Order"] := hs
    simp only [List.mem_cons, List.not_mem_nil, or_false] at hmem
    rcases hmem with rfl | rfl <;> decide
  obtain ⟨-, hdefined, hhead, -⟩ :=
    recorded_iff_first_candidate r .classBody n none [] 1 hname hplain
  exact ⟨hname, hplain, hdefined, hhead⟩

end ModelSurvey
