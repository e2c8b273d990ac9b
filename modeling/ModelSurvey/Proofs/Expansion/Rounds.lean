import Mathlib.Logic.Relation
import ModelSurvey.Expansion.Bucket

/-! Rounds of the loop that expands a bucket. A round takes the first include out and puts bodies in
its place, which may hold further ones; but it either visits a known module for the first time or
leaves one include less. So no sequence of rounds goes on for ever, and the loop as a function is
what a sequence of rounds leads to. -/
namespace ModelSurvey.Expansion
set_option autoImplicit false
open Syntax

/-! ## The first include -/

theorem splitInclude_of_include {i : Declaration} (r : List Declaration) (h : isInclude i = true) :
    splitInclude (i :: r) = some ([], i, r) := by
  rw [splitInclude, if_pos h]

theorem splitInclude_of_not {d : Declaration} (r : List Declaration) (h : isInclude d = false) :
    splitInclude (d :: r) =
      (splitInclude r).map fun (pre, i, post) => (d :: pre, i, post) := by
  rw [splitInclude, if_neg (by simp [h])]

theorem splitInclude_eq_none_iff {l : List Declaration} :
    splitInclude l = none ↔ ∀ d ∈ l, isInclude d = false := by
  induction l with
  | nil => simp [splitInclude]
  | cons d r ih =>
    cases h : isInclude d with
    | true => simp [splitInclude_of_include r h, h]
    | false => simp [splitInclude_of_not r h, h, ih]

/-- The declarations of a bucket that are no include. -/
def others (l : List Declaration) : List Declaration := l.filter fun d => !isInclude d

theorem others_cons_of_include {i : Declaration} (r : List Declaration) (h : isInclude i = true) :
    others (i :: r) = others r := List.filter_cons_of_neg (by simp [h])

theorem others_cons_of_not {d : Declaration} (r : List Declaration) (h : isInclude d = false) :
    others (d :: r) = d :: others r := List.filter_cons_of_pos (by simp [h])

/-! ## Rounds -/

variable (s : Sources) (space : String)

/-- One round of the loop, if there is an include left. -/
def round (o : Outcome s.registry) : Option (Outcome s.registry) :=
  match splitInclude o.bucket with
  | none => none
  | some (pre, i, post) =>
    let g := takeArguments s space o.memory o.visited i.arguments
    some ⟨pre ++ g.bodies ++ post, g.visited, g.memory, o.stats.add ⟨1, g.bodies.length⟩⟩

/-- A round visits a known module, or it leaves the visited ones alone and one include less. -/
theorem round_decreases {a b : Outcome s.registry} (h : round s space a = some b) :
    Prod.Lex (· < ·) (· < ·) (unvisited s.registry b.visited, b.bucket.countP isInclude)
      (unvisited s.registry a.visited, a.bucket.countP isInclude) := by
  rw [round] at h
  split at h
  · cases h
  · rename_i pre i post hs
    obtain ⟨e, hi⟩ := eq_of_splitInclude hs
    simp only [Option.some.injEq] at h
    subst h
    rcases takeArguments_cases s space ⟨a.memory, a.visited, []⟩ i.arguments with ⟨hv, hb⟩ | hlt
    · have hv' : (takeArguments s space a.memory a.visited i.arguments).visited = a.visited := hv
      have hb' : (takeArguments s space a.memory a.visited i.arguments).bodies = [] := hb
      simp only [hv', hb', e]
      refine Prod.Lex.right _ ?_
      simp [List.countP_append, List.countP_cons_of_pos hi]
    · exact Prod.Lex.left _ _ hlt

theorem round_wellFounded :
    WellFounded fun b a : Outcome s.registry => round s space a = some b := by
  have hlex : WellFounded (Prod.Lex (· < ·) (· < ·) : Nat × Nat → Nat × Nat → Prop) :=
    (Prod.lex Nat.lt_wfRel Nat.lt_wfRel).wf
  have hmeasure := InvImage.wf
    (fun o : Outcome s.registry => (unvisited s.registry o.visited, o.bucket.countP isInclude)) hlex
  exact Subrelation.wf (fun h => round_decreases s space h) hmeasure

/-! ## The loop as a function -/

variable (memory : Memory s.registry) (visited : List String) (bucket : List Declaration)

theorem expandFrom_of_none {bucket : List Declaration} (h : splitInclude bucket = none) :
    expandFrom s space memory visited bucket = ⟨bucket, visited, memory, {}⟩ := by
  rw [expandFrom]
  split
  · rfl
  · rename_i hs
    rw [h] at hs
    cases hs

theorem expandFrom_of_some {bucket pre post : List Declaration} {i : Declaration}
    (h : splitInclude bucket = some (pre, i, post)) :
    expandFrom s space memory visited bucket =
      let g := takeArguments s space memory visited i.arguments
      let rest := expandFrom s space g.memory g.visited (pre ++ g.bodies ++ post)
      { rest with stats := Stats.add ⟨1, g.bodies.length⟩ rest.stats } := by
  rw [expandFrom]
  split
  · rename_i hs
    rw [h] at hs
    cases hs
  · rename_i hs
    rw [h] at hs
    cases hs
    rfl

theorem Stats.add_assoc (a b c : Stats) : (a.add b).add c = a.add (b.add c) := by
  simp [Stats.add, Nat.add_assoc]

@[simp] theorem Stats.add_zero (a : Stats) : a.add {} = a := by simp [Stats.add]

@[simp] theorem Stats.zero_add (a : Stats) : Stats.add {} a = a := by simp [Stats.add]

theorem rounds_expandFrom (before : Stats) :
    Relation.ReflTransGen (fun a b => round s space a = some b)
      ⟨bucket, visited, memory, before⟩
      { expandFrom s space memory visited bucket with
        stats := before.add (expandFrom s space memory visited bucket).stats } := by
  fun_induction expandFrom s space memory visited bucket generalizing before with
  | case1 memory visited bucket h =>
    rw [Stats.add_zero]
  | case2 memory visited bucket pre i post h g rest ih =>
    refine Relation.ReflTransGen.head ?_ (b := ⟨pre ++ g.bodies ++ post, g.visited, g.memory,
      before.add ⟨1, g.bodies.length⟩⟩) ?_
    · simp only [round, h]
      rfl
    · have hrest := ih (before.add ⟨1, g.bodies.length⟩)
      rwa [Stats.add_assoc] at hrest

theorem isInclude_of_mem_expandFrom :
    ∀ d ∈ (expandFrom s space memory visited bucket).bucket, isInclude d = false := by
  fun_induction expandFrom s space memory visited bucket with
  | case1 memory visited bucket h => exact splitInclude_eq_none_iff.1 h
  | case2 memory visited bucket pre i post h g rest ih => exact ih

theorem length_expandFrom :
    (expandFrom s space memory visited bucket).bucket.length +
        (expandFrom s space memory visited bucket).stats.includes =
      bucket.length + (expandFrom s space memory visited bucket).stats.spliced := by
  fun_induction expandFrom s space memory visited bucket with
  | case1 memory visited bucket h => rfl
  | case2 memory visited bucket pre i post h g rest ih =>
    obtain ⟨e, -⟩ := eq_of_splitInclude h
    have hrest : rest.bucket.length + rest.stats.includes =
        (pre ++ g.bodies ++ post).length + rest.stats.spliced := ih
    simp only [e, List.length_append, List.length_cons, Stats.add] at hrest ⊢
    omega

end ModelSurvey.Expansion
