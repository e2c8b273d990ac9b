import ModelSurvey.Proofs.Expansion.Pass

/-! What earlier runs leave behind. Every memory that runs lead to is faithful, so where spellings
make no difference a run cannot tell it from the fresh one. -/
namespace ModelSurvey.Expansion
set_option autoImplicit false
open Syntax

variable (s : Sources)

/-! ## Runs and memories -/

theorem extends_expandFrom (space : String) (memory : Memory s.registry) (visited : List String)
    (bucket : List Declaration) :
    memory.Extends (expandFrom s space memory visited bucket).memory := by
  fun_induction expandFrom s space memory visited bucket with
  | case1 memory visited bucket h => exact Memory.Extends.refl memory
  | case2 memory visited bucket pre i post h g rest ih =>
    exact (extends_takeArguments s space memory visited i).trans ih

/-- A property of memories that each argument preserves is preserved by runs. -/
theorem expandFrom_preserves {P : Memory s.registry → Prop}
    (hP : ∀ space g n, P g.memory → P (takeArgument s space g n).memory) (space : String)
    {memory : Memory s.registry} (h : P memory) (visited : List String)
    (bucket : List Declaration) : P (expandFrom s space memory visited bucket).memory := by
  fun_induction expandFrom s space memory visited bucket with
  | case1 memory visited bucket hnone => exact h
  | case2 memory visited bucket pre i post hsome g rest ih =>
    exact ih (foldl_takeArgument_preserves s space (hP space) (g := ⟨memory, visited, []⟩) h
      i.arguments)

variable {s}

theorem Faithful.expandFrom {memory : Memory s.registry} (h : Faithful s memory) (space : String)
    (visited : List String) (bucket : List Declaration) :
    Faithful s (expandFrom s space memory visited bucket).memory :=
  expandFrom_preserves s (fun space _ n hg => hg.takeArgument space n) space h visited bucket

variable (s)

/-- The memories that expanding buckets leads to, beginning with the fresh one. -/
inductive Reachable : Memory s.registry → Prop where
  | fresh : Reachable .fresh
  | step {memory : Memory s.registry} (space : String) (bucket : List Declaration) :
      Reachable memory → Reachable (expandBucket s space memory bucket).memory

variable {s}

theorem Reachable.faithful {memory : Memory s.registry} (h : Reachable s memory) :
    Faithful s memory := by
  induction h with
  | fresh => exact faithful_fresh s
  | step space bucket _ ih => exact ih.expandFrom space [] bucket

/-- Where spellings make no difference, runs from faithful memories give the same. -/
theorem expandFrom_congr (ha : s.ReadsAlike) {memory known : Memory s.registry}
    (hm : Faithful s memory) (hk : Faithful s known) (space : String) (visited : List String)
    (bucket : List Declaration) :
    let o := expandFrom s space memory visited bucket
    let o' := expandFrom s space known visited bucket
    o.bucket = o'.bucket ∧ o.visited = o'.visited ∧ o.stats = o'.stats := by
  fun_induction expandFrom s space memory visited bucket generalizing known with
  | case1 memory visited bucket h =>
    rw [expandFrom_of_none s space known visited h]
    exact ⟨rfl, rfl, rfl⟩
  | case2 memory visited bucket pre i post h g rest =>
    rename_i ih
    have hvisited : (takeArguments s space known visited i.arguments).visited = g.visited := by
      rw [visited_takeArguments, visited_takeArguments]
    have hbodies : (takeArguments s space known visited i.arguments).bodies = g.bodies := by
      rw [hk.bodies_takeArguments ha, hm.bodies_takeArguments ha]
    have hrest := ih (hm.takeArguments space visited i) (hk.takeArguments space visited i)
    rw [expandFrom_of_some s space known visited h]
    dsimp only at hrest ⊢
    rw [hvisited, hbodies]
    exact ⟨hrest.1, hrest.2.1, congrArg (Stats.add ⟨1, g.bodies.length⟩) hrest.2.2⟩

theorem expandBucket_fresh (ha : s.ReadsAlike) {memory : Memory s.registry}
    (h : Faithful s memory) (space : String) (bucket : List Declaration) :
    (expandBucket s space memory bucket).bucket = (expandBucket s space .fresh bucket).bucket ∧
      (expandBucket s space memory bucket).stats =
        (expandBucket s space .fresh bucket).stats := by
  obtain ⟨hbucket, -, hstats⟩ := expandFrom_congr ha h (faithful_fresh s) space [] bucket
  exact ⟨hbucket, hstats⟩

end ModelSurvey.Expansion
