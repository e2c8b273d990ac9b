import ModelSurvey.Proofs.Expansion.Arguments
import ModelSurvey.Proofs.Expansion.Rounds

/-! Expansion from left to right. The loop looks for the first include again and again, but nothing
before it ever changes, so it comes to one pass over the bucket: what is no include is kept, and an
include gives way to its bodies before anything behind it is looked at. Hence runs over two lists
follow one another, and what an include brings stands between its former neighbours. -/
namespace ModelSurvey.Expansion
set_option autoImplicit false
open Syntax

variable (s : Sources) (space : String)

/-- Expands a bucket in one pass. -/
def pass (memory : Memory s.registry) (visited : List String) :
    List Declaration → Outcome s.registry
  | [] => ⟨[], visited, memory, {}⟩
  | d :: r =>
    if isInclude d then
      let g := takeArguments s space memory visited d.arguments
      let rest := pass g.memory g.visited (g.bodies ++ r)
      { rest with stats := Stats.add ⟨1, g.bodies.length⟩ rest.stats }
    else
      let rest := pass memory visited r
      { rest with bucket := d :: rest.bucket }
termination_by l => (unvisited s.registry visited, l.length)
decreasing_by
  · rcases takeArguments_cases s space ⟨memory, visited, []⟩ d.arguments with ⟨hv, hb⟩ | hlt
    · have hv' : g.visited = visited := hv
      have hb' : g.bodies = [] := hb
      rw [hv', hb']
      refine Prod.Lex.right _ ?_
      simp
    · exact Prod.Lex.left _ _ hlt
  · refine Prod.Lex.right _ ?_
    simp

/-! ## The loop is a pass -/

variable (memory : Memory s.registry) (visited : List String)

theorem expandFrom_cons_of_not {d : Declaration} (r : List Declaration) (h : isInclude d = false) :
    expandFrom s space memory visited (d :: r) =
      let rest := expandFrom s space memory visited r
      { rest with bucket := d :: rest.bucket } := by
  fun_induction expandFrom s space memory visited r with
  | case1 memory visited r hr =>
    exact expandFrom_of_none s space memory visited (by rw [splitInclude_of_not r h, hr]; rfl)
  | case2 memory visited r pre i post hr g rest ih =>
    have hsplit : splitInclude (d :: r) = some (d :: pre, i, post) := by
      rw [splitInclude_of_not r h, hr]
      rfl
    rw [expandFrom_of_some s space memory visited hsplit]
    simp only [List.cons_append]
    rw [ih]

theorem expandFrom_cons_of_include {i : Declaration} (r : List Declaration)
    (h : isInclude i = true) :
    expandFrom s space memory visited (i :: r) =
      let g := takeArguments s space memory visited i.arguments
      let rest := expandFrom s space g.memory g.visited (g.bodies ++ r)
      { rest with stats := Stats.add ⟨1, g.bodies.length⟩ rest.stats } :=
  expandFrom_of_some s space memory visited (splitInclude_of_include r h)

theorem expandFrom_eq_pass (bucket : List Declaration) :
    expandFrom s space memory visited bucket = pass s space memory visited bucket := by
  fun_induction pass s space memory visited bucket with
  | case1 memory visited => exact expandFrom_of_none s space memory visited rfl
  | case2 memory visited d r hd g rest ih =>
    rw [expandFrom_cons_of_include s space _ _ r hd]
    dsimp only
    rw [ih]
  | case3 memory visited d r hd rest ih =>
    rw [expandFrom_cons_of_not s space _ _ r (by simpa using hd), ih]

/-! ## Runs over several lists -/

theorem expandFrom_append (xs ys : List Declaration) :
    expandFrom s space memory visited (xs ++ ys) =
      let first := expandFrom s space memory visited xs
      let second := expandFrom s space first.memory first.visited ys
      ⟨first.bucket ++ second.bucket, second.visited, second.memory,
        first.stats.add second.stats⟩ := by
  -- Along the pass over `xs`: bodies put in front of `xs` are still in front of `xs ++ ys`.
  rw [expandFrom_eq_pass s space memory visited xs]
  fun_induction pass s space memory visited xs with
  | case1 memory visited => simp
  | case2 memory visited d r hd g rest ih =>
    rw [List.cons_append, expandFrom_cons_of_include s space _ _ _ hd]
    dsimp only
    rw [← List.append_assoc, ih, Stats.add_assoc]
  | case3 memory visited d r hd rest ih =>
    rw [List.cons_append, expandFrom_cons_of_not s space _ _ _ (by simpa using hd), ih]
    simp only [List.cons_append, rest]

theorem expandFrom_singleton_of_not {d : Declaration} (h : isInclude d = false) :
    expandFrom s space memory visited [d] = ⟨[d], visited, memory, {}⟩ := by
  rw [expandFrom_cons_of_not s space memory visited [] h,
    expandFrom_of_none s space memory visited rfl]

theorem sublist_expandFrom (bucket : List Declaration) :
    (others bucket).Sublist (expandFrom s space memory visited bucket).bucket := by
  induction bucket generalizing memory visited with
  | nil => exact List.nil_sublist _
  | cons d r ih =>
    cases hd : isInclude d with
    | true =>
      rw [others_cons_of_include r hd, expandFrom_cons_of_include s space _ _ r hd]
      dsimp only
      rw [expandFrom_append]
      exact (ih _ _).trans (List.sublist_append_right _ _)
    | false =>
      rw [others_cons_of_not r hd, expandFrom_cons_of_not s space _ _ r hd]
      exact (ih memory visited).cons_cons d

/-! ## The pass, rule by rule -/

/-- An include is expanded as the bodies of the modules it visits, in the order of its arguments.
All of them are visited before anything in the bodies is looked at. -/
theorem expandFrom_include {i : Declaration} (r : List Declaration) (h : isInclude i = true) :
    let g := takeArguments s space memory visited i.arguments
    let new := newModules s space visited i
    let bodies := new.flatMap g.memory.bodies
    let rest := expandFrom s space g.memory (new.reverse ++ visited) (bodies ++ r)
    expandFrom s space memory visited (i :: r) =
      { rest with stats := Stats.add ⟨1, bodies.length⟩ rest.stats } := by
  dsimp only
  rw [expandFrom_cons_of_include s space memory visited r h]
  dsimp only
  rw [visited_takeArguments, ← bodies_takeArguments]

theorem mem_newModules_append {i : Declaration} {m : String} :
    m ∈ (newModules s space visited i).reverse ++ visited ↔
      m ∈ visited ∨ m ∈ namedModules s.registry space i.arguments := by
  rw [List.mem_append, List.mem_reverse, mem_newModules]
  by_cases hv : m ∈ visited
  · simp [hv]
  · simp [hv]

theorem bucket_expandFrom_place (pre post : List Declaration) (d : Declaration) :
    let before := expandFrom s space memory visited pre
    let here := expandFrom s space before.memory before.visited [d]
    let after := expandFrom s space here.memory here.visited post
    (expandFrom s space memory visited (pre ++ d :: post)).bucket =
      before.bucket ++ here.bucket ++ after.bucket := by
  have hpost := expandFrom_append s space (expandFrom s space memory visited pre).memory
    (expandFrom s space memory visited pre).visited [d] post
  have hall := expandFrom_append s space memory visited pre (d :: post)
  rw [List.singleton_append] at hpost
  dsimp only at hpost hall ⊢
  rw [hall, hpost, List.append_assoc]

end ModelSurvey.Expansion
