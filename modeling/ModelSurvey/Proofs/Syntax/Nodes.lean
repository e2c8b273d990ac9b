import ModelSurvey.Syntax.Tree

/-! The nodes of a tree in pre-order, and induction over trees with the claim for all children. -/
namespace ModelSurvey.Syntax.Tree
set_option autoImplicit false

theorem induction {motive : Tree → Prop}
    (h : ∀ a cs, (∀ t ∈ cs, motive t) → motive (.node a cs)) : ∀ t, motive t
  | .node a cs => h a cs fun t _ => induction h t

mutual

/-- A tree and the subtrees at its nodes, each before those inside it. -/
def nodes : Tree → List Tree
  | .node a cs => .node a cs :: nodesAll cs

def nodesAll : List Tree → List Tree
  | [] => []
  | t :: r => nodes t ++ nodesAll r

end

/-- A named node without faults. -/
def clean (kind : String) (field : Option String) (start stop : Nat) (children : List Tree) : Tree :=
  .node ⟨kind, true, false, false, false, field, start, stop⟩ children

theorem mem_nodesAll {u : Tree} {ts : List Tree} :
    u ∈ nodesAll ts ↔ ∃ t ∈ ts, u ∈ nodes t := by
  induction ts with
  | nil => simp [nodesAll]
  | cons t r ih => simp [nodesAll, ih]

theorem self_mem_nodes (t : Tree) : t ∈ t.nodes := by
  obtain ⟨a, cs⟩ := t
  rw [nodes]
  exact List.mem_cons_self ..

theorem children_mem_nodes {root t : Tree} (ht : t ∈ root.nodes) :
    ∀ u ∈ t.children, u ∈ root.nodes := by
  intro u hu
  induction root using induction with
  | h a cs ih =>
    rw [nodes, List.mem_cons] at ht ⊢
    rcases ht with rfl | ht
    · exact Or.inr (mem_nodesAll.2 ⟨u, hu, self_mem_nodes u⟩)
    · obtain ⟨v, hv, htv⟩ := mem_nodesAll.1 ht
      exact Or.inr (mem_nodesAll.2 ⟨v, hv, ih v hv htv⟩)

theorem parts_mem_nodes {root t : Tree} (ht : t ∈ root.nodes) : ∀ u ∈ t.parts, u ∈ root.nodes :=
  fun u hu => children_mem_nodes ht u (List.mem_filter.1 hu).1

end ModelSurvey.Syntax.Tree
