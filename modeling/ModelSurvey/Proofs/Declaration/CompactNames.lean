import Mathlib.Data.List.Induction
import ModelSurvey.Proofs.Declaration.PlainNames

/-! Compact and nested names. A class can be named by a path of constants, or stand inside modules
named by the constants before the last one. A walk joins the same segments for both, so what is in
the class goes to the same buckets, and the modules around it add nothing but their definitions. -/
namespace ModelSurvey
set_option autoImplicit false
open Syntax

/-! ## Paths of constants -/

/-- The constant `name` inside `outer`; without an `outer`, what `first` makes of it. -/
def constantIn (first : String → Node) (outer : Option Node) (name : String) : Node :=
  match outer with
  | none => first name
  | some n => .constantPath (some n) name

/-- The path that leads through `outers` to `name`, beginning with what `first` makes of a name. -/
def pathThrough (first : String → Node) (outers : List String) (name : String) : Node :=
  constantIn first (outers.foldl (fun outer s => some (constantIn first outer s)) none) name

def compactName (outers : List String) (name : String) : Node := pathThrough .constant outers name

def rootedName (outers : List String) (name : String) : Node :=
  pathThrough (.constantPath none) outers name

namespace Name

theorem join_concat {l : List String} (h : l ≠ []) (name : String) :
    join (l ++ [name]) = join l ++ mark ++ name := by
  induction l with
  | nil => exact absurd rfl h
  | cons s l ih =>
    cases l with
    | nil => simp [join]
    | cons t l =>
      have hrest := ih (List.cons_ne_nil t l)
      simp only [join, List.cons_append, String.intercalate_cons_cons] at hrest ⊢
      rw [hrest]
      simp only [String.append_assoc]

end Name

theorem path?_pathThrough (first : String → Node) (front : String)
    (h : ∀ name, (first name).path? = some (front ++ name)) (outers : List String) (name : String) :
    (pathThrough first outers name).path? = some (front ++ Name.join (outers ++ [name])) := by
  -- From the right: the last of `outers` is the constant that `name` is looked up in.
  induction outers using List.reverseRecOn generalizing name with
  | nil =>
    have hjoin : Name.join ([] ++ [name]) = name := by simp [Name.join]
    rw [hjoin]
    exact h name
  | append_singleton outers s ih =>
    have hne : outers ++ [s] ≠ [] := List.append_ne_nil_of_right_ne_nil outers (by simp)
    have hpath : pathThrough first (outers ++ [s]) name =
        .constantPath (some (pathThrough first outers s)) name := by
      rw [pathThrough, List.foldl_append]
      rfl
    rw [hpath, Node.path?, ih, Option.map_some, Name.join_concat hne]
    simp only [String.append_assoc]

theorem evaluate_of_path? {n : Node} {name : String} (h : n.path? = some name) :
    n.evaluate = some (.string name) := by
  cases n with
  | constant token =>
    cases h
    rw [Node.evaluate]
  | constantPath outer token => rw [Node.evaluate, h, Option.map_some]
  | _ => cases h

theorem evaluate_compactName (outers : List String) (name : String) :
    (compactName outers name).evaluate = some (.string (Name.join (outers ++ [name]))) := by
  have h := path?_pathThrough .constant "" (by simp [Node.path?]) outers name
  rw [String.empty_append] at h
  exact evaluate_of_path? h

theorem evaluate_rootedName (outers : List String) (name : String) :
    (rootedName outers name).evaluate =
      some (.string (Name.mark ++ Name.join (outers ++ [name]))) :=
  evaluate_of_path?
    (path?_pathThrough (.constantPath none) Name.mark (by simp [Node.path?]) outers name)

theorem nameSegments_of_evaluate {n : Node} {name : String}
    (h : n.evaluate = some (.string name)) : nameSegments n = Name.segments name := by
  rw [nameSegments, h]
  rfl

theorem nameSegments_compactName {outers : List String} {name : String}
    (h : Name.Plain (outers ++ [name])) :
    nameSegments (compactName outers name) = outers ++ [name] := by
  rw [nameSegments_of_evaluate (evaluate_compactName outers name), Name.segments_join h]

theorem nameSegments_rootedName {outers : List String} {name : String}
    (h : Name.Plain (outers ++ [name])) :
    nameSegments (rootedName outers name) = outers ++ [name] := by
  rw [nameSegments_of_evaluate (evaluate_rootedName outers name), Name.segments_mark_append,
    Name.segments_join h]

theorem nameSegments_constant {name : String} (h : Name.Plain [name]) :
    nameSegments (.constant name) = [name] := @nameSegments_compactName [] name h

/-! ## Modules around a class -/

/-- Modules, each with its line, one in the other around a node. -/
def nest (outers : List (String × Nat)) (inner : Node) : Node :=
  outers.foldr (fun outer n => .space ⟨.moduleBody, .constant outer.1, none, [n], outer.2⟩) inner

/-- The definitions of nested modules, outermost first. -/
def nestDefinitions (scope : List String) : List (String × Nat) → List Definition
  | [] => []
  | (name, line) :: r =>
    ⟨Name.join (scope ++ [name]), .moduleBody, line⟩ :: nestDefinitions (scope ++ [name]) r

theorem findings_nest (scope : List String) {outers : List (String × Nat)} (inner : Node)
    (h : Name.Plain (outers.map Prod.fst)) :
    findings scope (nest outers inner) = (nestDefinitions scope outers).map .defined ++
      findings (scope ++ outers.map Prod.fst) inner := by
  induction outers generalizing scope with
  | nil => simp [nest, nestDefinitions]
  | cons outer outers ih =>
    obtain ⟨name, line⟩ := outer
    have hname : Name.Plain [name] := by
      intro s hs
      rw [List.mem_singleton.1 hs]
      exact h name (List.mem_cons_self ..)
    have hrest := ih (scope ++ [name]) fun s hs => h s (List.mem_cons_of_mem name hs)
    have hnest : nest ((name, line) :: outers) inner =
        .space ⟨.moduleBody, .constant name, none, [nest outers inner], line⟩ := rfl
    rw [hnest, findings, spaceFindings, nameSegments_constant hname]
    simp only [optionalFindings, allFindings, hrest, nestDefinitions, List.map_cons,
      List.nil_append, List.append_nil, List.cons_append, List.append_assoc]

theorem declaration?_nestDefinitions (scope : List String) (outers : List (String × Nat)) :
    ((nestDefinitions scope outers).map Finding.defined).filterMap Finding.declaration? = [] := by
  rw [List.filterMap_map]
  exact List.filterMap_eq_nil_iff.2 fun _ _ => rfl

theorem definition?_nestDefinitions (scope : List String) (outers : List (String × Nat)) :
    ((nestDefinitions scope outers).map Finding.defined).filterMap Finding.definition? =
      nestDefinitions scope outers := by
  rw [List.filterMap_map]
  exact List.filterMap_some

/-! ## One class in three spellings -/

/-- What a class or module with the segments `names` holds, seen from `scope`. -/
def insideFindings (scope names : List String) (superclass : Option Node) (body : List Node) :
    List Finding :=
  optionalFindings (scope ++ names) superclass ++ allFindings (scope ++ names) body

theorem findings_space_of_segments (scope : List String) {kind : NamespaceKind} {n : Node}
    {superclass : Option Node} {body : List Node} {line : Nat} {names : List String}
    (h : nameSegments n = names) :
    findings scope (.space ⟨kind, n, superclass, body, line⟩) =
      .defined ⟨Name.join (scope ++ names), kind, line⟩ ::
        insideFindings scope names superclass body := by
  rw [findings, spaceFindings, h]
  rfl

/-- A class named by a path records the same declarations as one inside nested modules, and so does
one named by a rooted path at the top level. Only the definitions of the modules come on top. -/
theorem compact_records_as_nested (r : Recorder) (kind : NamespaceKind) (superclass : Option Node)
    (body : List Node) (line innerLine : Nat) (outers : List (String × Nat)) (name : String)
    (h : Name.Plain (outers.map Prod.fst ++ [name])) :
    let names := outers.map Prod.fst ++ [name]
    let path := compactName (outers.map Prod.fst) name
    let rooted := rootedName (outers.map Prod.fst) name
    let compact := r.visit (.space ⟨kind, path, superclass, body, line⟩)
    let nested := r.visit (nest outers (.space ⟨kind, .constant name, superclass, body, innerLine⟩))
    let inside := (insideFindings r.scope names superclass body).filterMap Finding.definition?
    path.evaluate = some (.string (Name.join names)) ∧
    rooted.evaluate = some (.string (Name.mark ++ Name.join names)) ∧
    nested.table = compact.table ∧ nested.scope = compact.scope ∧
    compact.definitions = r.definitions ++ ⟨Name.join (r.scope ++ names), kind, line⟩ :: inside ∧
    nested.definitions = r.definitions ++ nestDefinitions r.scope outers ++
      ⟨Name.join (r.scope ++ names), kind, innerLine⟩ :: inside ∧
    (r.scope = [] → r.visit (.space ⟨kind, rooted, superclass, body, line⟩) = compact) := by
  intro names path rooted compact nested inside
  have houters : Name.Plain (outers.map Prod.fst) := fun s hs => h s (List.mem_append_left _ hs)
  have hname : Name.Plain [name] := fun s hs => h s (List.mem_append_right _ hs)
  have hcompact : compact = r.record (.defined ⟨Name.join (r.scope ++ names), kind, line⟩ ::
      insideFindings r.scope names superclass body) := by
    rw [← findings_space_of_segments r.scope (nameSegments_compactName h)]
    exact Recorder.visit_eq r _
  have hnested : nested = r.record ((nestDefinitions r.scope outers).map .defined ++
      .defined ⟨Name.join (r.scope ++ names), kind, innerLine⟩ ::
        insideFindings r.scope names superclass body) := by
    have hinner : findings (r.scope ++ outers.map Prod.fst)
        (.space ⟨kind, .constant name, superclass, body, innerLine⟩) = _ :=
      findings_space_of_segments _ (nameSegments_constant hname)
    have hvisit := Recorder.visit_eq r
      (nest outers (.space ⟨kind, .constant name, superclass, body, innerLine⟩))
    rw [findings_nest r.scope _ houters, hinner] at hvisit
    simpa only [insideFindings, List.append_assoc] using hvisit
  refine ⟨evaluate_compactName _ name, evaluate_rootedName _ name, ?_, ?_, ?_, ?_, ?_⟩
  · rw [hcompact, hnested, Recorder.record_append]
    simp only [Recorder.record, declaration?_nestDefinitions, List.foldl_nil]
    rfl
  · rw [hcompact, hnested, Recorder.scope_record, Recorder.scope_record]
  · rw [hcompact]
    rfl
  · rw [hnested]
    simp only [Recorder.record, List.filterMap_append, definition?_nestDefinitions,
      List.append_assoc]
    rfl
  · intro _
    rw [hcompact, Recorder.visit_eq, findings_space_of_segments r.scope (nameSegments_rootedName h)]

theorem compact_records_as_nested_order :
    let r : Recorder := ⟨["Store"], ∅, []⟩
    let enum : Node := .call (.bare "enum" 4)
    let path := compactName ["Shop", "Admin"] "Order"
    let compact := r.visit (.space ⟨.classBody, path, none, [enum], 1⟩)
    let nested := r.visit (nest [("Shop", 1), ("Admin", 2)]
      (.space ⟨.classBody, .constant "Order", none, [enum], 3⟩))
    Name.Plain ["Shop", "Admin", "Order"] ∧ nested.table = compact.table ∧
    compact.definitions = [⟨"Store::Shop::Admin::Order", .classBody, 1⟩] ∧
    nested.definitions = [⟨"Store::Shop", .moduleBody, 1⟩, ⟨"Store::Shop::Admin", .moduleBody, 2⟩,
      ⟨"Store::Shop::Admin::Order", .classBody, 3⟩] := by
  intro r enum path compact nested
  have hplain : Name.Plain ["Shop", "Admin", "Order"] := by
    intro s hs
    simp only [List.mem_cons, List.not_mem_nil, or_false] at hs
    rcases hs with rfl | rfl | rfl <;> decide
  obtain ⟨-, -, htable, -, hcompact, hnested, -⟩ := compact_records_as_nested r .classBody none
    [enum] 1 3 [("Shop", 1), ("Admin", 2)] "Order" hplain
  exact ⟨hplain, htable, hcompact, hnested⟩

end ModelSurvey
