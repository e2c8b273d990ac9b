import ModelSurvey.Proofs.Declaration.Exposed
import ModelSurvey.Proofs.Syntax.Nodes
import ModelSurvey.Syntax.Lower

/-! Source order through lowering and collection. Lowering takes fields out of their place and the
walk puts the superclass before the body, but each finding comes from a node of its own, and in the
order of these nodes: the lines of the findings are a sublist of the lines of the nodes. -/
namespace ModelSurvey
set_option autoImplicit false

def Finding.line : Finding → Nat
  | .declared _ d => d.line
  | .defined d => d.line

namespace Syntax

/-! ## Trees in order -/

/-- Whether a child of a class or module is a row of its body. -/
def Tree.isBodyRow (t : Tree) : Bool :=
  t.isPart && !t.isField "name" && !t.isField "superclass"

def SuperclassFirst (cs : List Tree) : Prop :=
  cs.Pairwise fun t u => t.isBodyRow = true → u.isField "superclass" = false

/-- The key stands before the value; a pair without a key has no place for it. -/
def KeyFirst (cs : List Tree) : Prop :=
  cs.any (Tree.isField "key") = true →
    cs.findIdx (Tree.isField "key") < cs.findIdx (Tree.isField "value")

/-- The order of the rows in one node that lowering takes apart by fields. -/
def RowsInOrder (t : Tree) : Prop :=
  (Form.ofKind t.kind = .classBody ∨ Form.ofKind t.kind = .moduleBody →
    SuperclassFirst t.children) ∧
  (Form.ofKind t.kind = .pair → KeyFirst t.children)

/-- A tree whose nodes start no earlier than the nodes before them in pre-order. -/
structure InSourceOrder (root : Tree) : Prop where
  starts : root.nodes.Pairwise fun t u => t.label.start ≤ u.label.start
  rows : ∀ t ∈ root.nodes, RowsInOrder t

/-! ## Lines -/

/-- The lines on which the findings of some nodes stand. -/
def nodeLines (scope : List String) (l : List Node) : List Nat :=
  (allFindings scope l).map Finding.line

/-- The lines on which the nodes of some trees start, in pre-order. -/
def treeLines (s : Source) (ts : List Tree) : List Nat :=
  (Tree.nodesAll ts).map fun t => s.line t.label

theorem line_mono (s : Source) {a b : Label} (h : a.start ≤ b.start) : s.line a ≤ s.line b := by
  have hprefix : s.bytes.take a.start <+: s.bytes.take b.start := List.take_prefix_take_left h
  have hcount := hprefix.sublist.count_le 10
  rw [Source.line, Source.line]
  omega

variable (s : Source) (scope : List String)

@[simp] theorem nodeLines_nil : nodeLines scope [] = [] := by
  rw [nodeLines, allFindings]
  rfl

theorem nodeLines_append (l m : List Node) :
    nodeLines scope (l ++ m) = nodeLines scope l ++ nodeLines scope m := by
  rw [nodeLines, allFindings_append, List.map_append]
  rfl

theorem nodeLines_singleton (n : Node) :
    nodeLines scope [n] = (findings scope n).map Finding.line := by
  rw [nodeLines, allFindings, allFindings, List.append_nil]

theorem nodeLines_call (c : Call) : nodeLines scope [.call c] = [c.line] := by
  rw [nodeLines_singleton, findings]
  rfl

theorem nodeLines_array (l : List Node) : nodeLines scope [.array l] = nodeLines scope l := by
  rw [nodeLines_singleton, findings]
  rfl

theorem nodeLines_other (kind : String) (l : List Node) :
    nodeLines scope [.other kind l] = nodeLines scope l := by
  rw [nodeLines_singleton, findings]
  rfl

theorem nodeLines_hash (l : List HashElement) :
    nodeLines scope [.hash l] = nodeLines scope (l.flatMap HashElement.nodes) := by
  rw [nodeLines_singleton, findings, elementFindings_eq]
  rfl

theorem nodeLines_constantPath (outer : Option Node) (name : String) :
    nodeLines scope [.constantPath outer name] = nodeLines scope outer.toList := by
  rw [nodeLines_singleton, findings, optionalFindings_eq]
  rfl

theorem nodeLines_lambda (b : Block) : nodeLines scope [.lambda b] = nodeLines scope b.body := by
  rw [nodeLines_singleton, findings, blockFindings_eq]
  rfl

theorem nodeLines_space (x : Namespace) :
    nodeLines scope [.space x] =
      x.line :: nodeLines (scope ++ nameSegments x.name) (x.superclass.toList ++ x.body) := by
  obtain ⟨kind, name, superclass, body, line⟩ := x
  rw [nodeLines_singleton, findings, spaceFindings, nodeLines_append, optionalFindings_eq,
    List.map_cons, List.map_append]
  rfl

theorem treeLines_node (a : Label) (cs : List Tree) :
    treeLines s [.node a cs] = s.line a :: treeLines s cs := by
  simp [treeLines, Tree.nodesAll, Tree.nodes, Tree.label]

theorem treeLines_cons (t : Tree) (ts : List Tree) :
    treeLines s (t :: ts) = treeLines s [t] ++ treeLines s ts := by
  simp [treeLines, Tree.nodesAll]

theorem sublist_children (t : Tree) : (treeLines s t.children).Sublist (treeLines s [t]) := by
  obtain ⟨a, cs⟩ := t
  rw [treeLines_node]
  exact List.sublist_cons_self _ _

variable {s} {scope}

theorem sublist_treeLines_cons {l m : List Nat} {t : Tree} {r : List Tree}
    (hl : l.Sublist (treeLines s [t])) (hm : m.Sublist (treeLines s r)) :
    (l ++ m).Sublist (treeLines s (t :: r)) := by
  rw [treeLines_cons]
  exact hl.append hm

theorem sublist_treeLines_skip {m : List Nat} {r : List Tree} (t : Tree) (hm : m.Sublist (treeLines s r)) :
    m.Sublist (treeLines s (t :: r)) := by
  rw [treeLines_cons]
  exact hm.trans (List.sublist_append_right _ _)

/-! ## Lists of children -/

variable (s) in
/-- The findings in what is lowered from a node come from its nodes, in their order. -/
structure Traced (t : Tree) : Prop where
  node : ∀ scope, (nodeLines scope [lower s t]).Sublist (treeLines s [t])
  element : ∀ scope, (nodeLines scope ((lowerElement s t).toList.flatMap HashElement.nodes)).Sublist
    (treeLines s [t])
  statements : ∀ scope, (nodeLines scope (lowerStatements s t.children)).Sublist
    (treeLines s t.children)
  block : ∀ scope, (nodeLines scope (BlockPart.assemble (lowerBlock s t.children)).body).Sublist
    (treeLines s t.children)
  first : ∀ scope, (nodeLines scope (lowerFirst s t.children).toList).Sublist
    (treeLines s t.children)

theorem sublist_bareCall (a : Label) (cs : List Tree) :
    (nodeLines scope [bareCall s a]).Sublist (treeLines s [.node a cs]) := by
  rw [bareCall, nodeLines_call, treeLines_node]
  exact List.Sublist.cons_cons _ (List.nil_sublist _)

theorem sublist_lowerParts {cs : List Tree} (h : ∀ t ∈ cs, Traced s t) :
    (nodeLines scope (lowerParts s cs)).Sublist (treeLines s cs) := by
  induction cs with
  | nil =>
    rw [lowerParts, nodeLines_nil]
    exact List.nil_sublist _
  | cons t r ih =>
    obtain ⟨ht, hr⟩ := List.forall_mem_cons.1 h
    rw [lowerParts]
    split
    · rw [← List.singleton_append, nodeLines_append]
      exact sublist_treeLines_cons (ht.node scope) (ih hr)
    · exact sublist_treeLines_skip t (ih hr)

theorem sublist_lowerStatements {cs : List Tree} (h : ∀ t ∈ cs, Traced s t) :
    (nodeLines scope (lowerStatements s cs)).Sublist (treeLines s cs) := by
  induction cs with
  | nil =>
    rw [lowerStatements, nodeLines_nil]
    exact List.nil_sublist _
  | cons t r ih =>
    obtain ⟨ht, hr⟩ := List.forall_mem_cons.1 h
    obtain ⟨a, cs⟩ := t
    have hinside := (ht.statements scope).trans (sublist_children s _)
    rw [lowerStatements]
    split
    · exact sublist_treeLines_skip _ (ih hr)
    · split
      · rw [nodeLines_append]
        exact sublist_treeLines_cons hinside (ih hr)
      · rw [nodeLines_append]
        exact sublist_treeLines_cons hinside (ih hr)
      · rw [← List.singleton_append, nodeLines_append]
        exact sublist_treeLines_cons (sublist_bareCall a cs) (ih hr)
      · rw [← List.singleton_append, nodeLines_append]
        exact sublist_treeLines_cons (ht.node scope) (ih hr)

theorem sublist_lowerField {cs : List Tree} (h : ∀ t ∈ cs, Traced s t) (f : String) :
    (nodeLines scope (lowerField s f cs).toList).Sublist (treeLines s cs) := by
  induction cs with
  | nil =>
    rw [lowerField, Option.toList_none, nodeLines_nil]
    exact List.nil_sublist _
  | cons t r ih =>
    obtain ⟨ht, hr⟩ := List.forall_mem_cons.1 h
    rw [lowerField]
    split
    · rw [Option.toList_some, ← List.append_nil (nodeLines scope [lower s t])]
      exact sublist_treeLines_cons (ht.node scope) (List.nil_sublist _)
    · exact sublist_treeLines_skip t (ih hr)

theorem sublist_lowerFirst {cs : List Tree} (h : ∀ t ∈ cs, Traced s t) :
    (nodeLines scope (lowerFirst s cs).toList).Sublist (treeLines s cs) := by
  induction cs with
  | nil =>
    rw [lowerFirst, Option.toList_none, nodeLines_nil]
    exact List.nil_sublist _
  | cons t r ih =>
    obtain ⟨ht, hr⟩ := List.forall_mem_cons.1 h
    rw [lowerFirst]
    split
    · rw [Option.toList_some, ← List.append_nil (nodeLines scope [lower s t])]
      exact sublist_treeLines_cons (ht.node scope) (List.nil_sublist _)
    · exact sublist_treeLines_skip t (ih hr)

/-! ## Pairs -/

theorem nodeLines_labelKey (b : Bool) (n : Node) :
    nodeLines scope [labelKey b n] = nodeLines scope [n] := by
  cases n with
  | string text =>
    rw [labelKey]
    split
    · rfl
    · rfl
  | _ => rfl

theorem nodeLines_getD_implicit (o : Option Node) :
    nodeLines scope [o.getD (.other "implicit" [])] = nodeLines scope o.toList := by
  cases o with
  | none => rw [Option.getD_none, nodeLines_other, Option.toList_none]
  | some n => rfl

theorem any_key_of_lowerKey {cs : List Tree} {key : Node} (h : lowerKey s cs = some key) :
    cs.any (Tree.isField "key") = true := by
  induction cs with
  | nil => cases h
  | cons t r ih =>
    rw [List.any_cons, Bool.or_eq_true]
    rw [lowerKey] at h
    split at h
    · rename_i hkey
      exact Or.inl hkey
    · exact Or.inr (ih h)

theorem sublist_pair {cs : List Tree} (h : ∀ t ∈ cs, Traced s t) (hfirst : KeyFirst cs)
    {key : Node} (hkey : lowerKey s cs = some key) :
    (nodeLines scope [key] ++ nodeLines scope (lowerField s "value" cs).toList).Sublist
      (treeLines s cs) := by
  induction cs with
  | nil => cases hkey
  | cons t r ih =>
    obtain ⟨ht, hr⟩ := List.forall_mem_cons.1 h
    have hany := any_key_of_lowerKey hkey
    have hlt := hfirst hany
    rw [List.findIdx_cons, List.findIdx_cons] at hlt
    rw [lowerKey] at hkey
    rw [lowerField]
    cases hk : t.isField "key" with
    | true =>
      have hvalue : t.isField "value" = false := by
        cases hv : t.isField "value" with
        | false => rfl
        | true =>
          have hkf := eq_of_beq hk
          rw [eq_of_beq hv] at hkf
          exact absurd hkf (by decide)
      rw [if_pos hk] at hkey
      obtain rfl := Option.some.inj hkey
      rw [hvalue, nodeLines_labelKey]
      exact sublist_treeLines_cons (ht.node scope) (sublist_lowerField hr "value")
    | false =>
      rw [if_neg (by simp [hk])] at hkey
      -- A value here would stand before every key.
      cases hv : t.isField "value" with
      | true =>
        rw [hk, hv] at hlt
        exact absurd hlt (Nat.not_lt_zero _)
      | false =>
        rw [hk, hv] at hlt
        have hrest : KeyFirst r := fun _ => Nat.lt_of_succ_lt_succ hlt
        exact sublist_treeLines_skip t (ih hr hrest hkey)

theorem sublist_lowerElement {a : Label} {cs : List Tree} (h : ∀ t ∈ cs, Traced s t)
    (hrows : RowsInOrder (.node a cs)) :
    (nodeLines scope ((lowerElement s (.node a cs)).toList.flatMap HashElement.nodes)).Sublist
      (treeLines s [.node a cs]) := by
  have hchildren := sublist_children s (.node a cs)
  rw [lowerElement]
  split
  · rename_i hform
    cases hkey : lowerKey s cs with
    | none =>
      rw [Option.map_none, Option.toList_none, List.flatMap_nil, nodeLines_nil]
      exact List.nil_sublist _
    | some key =>
      have hpair : (nodeLines scope [key] ++
          nodeLines scope (lowerField s "value" cs).toList).Sublist (treeLines s cs) :=
        sublist_pair h (hrows.2 hform) hkey
      rw [← nodeLines_getD_implicit, ← nodeLines_append] at hpair
      rw [Option.map_some, Option.toList_some, List.flatMap_singleton]
      exact hpair.trans hchildren
  · rw [Option.toList_some, List.flatMap_singleton, HashElement.nodes, nodeLines_other]
    exact (sublist_lowerParts h).trans hchildren
  · rw [Option.toList_none, List.flatMap_nil, nodeLines_nil]
    exact List.nil_sublist _

theorem sublist_lowerElements {cs : List Tree} (h : ∀ t ∈ cs, Traced s t) :
    (nodeLines scope ((lowerElements s cs).flatMap HashElement.nodes)).Sublist
      (treeLines s cs) := by
  induction cs with
  | nil =>
    rw [lowerElements, List.flatMap_nil, nodeLines_nil]
    exact List.nil_sublist _
  | cons t r ih =>
    obtain ⟨ht, hr⟩ := List.forall_mem_cons.1 h
    rw [lowerElements]
    split
    · rw [List.flatMap_append, nodeLines_append]
      exact sublist_treeLines_cons (ht.element scope) (ih hr)
    · exact sublist_treeLines_skip t (ih hr)

/-! ## Blocks -/

def BlockPart.nodes : BlockPart → List Node
  | .parameters _ => []
  | .statements l => l
  | .inner b => b.body

theorem BlockPart.body_assemble (l : List BlockPart) : (assemble l).body = l.flatMap nodes := by
  have h : ∀ b : Block, (l.foldl addTo b).body = b.body ++ l.flatMap nodes := by
    induction l with
    | nil => intro b; simp
    | cons x l ih =>
      intro b
      rw [List.foldl_cons, ih, List.flatMap_cons, ← List.append_assoc]
      cases x <;> simp [addTo, nodes]
  rw [assemble, h, List.nil_append]

theorem sublist_lowerBlock {cs : List Tree} (h : ∀ t ∈ cs, Traced s t) :
    (nodeLines scope (BlockPart.assemble (lowerBlock s cs)).body).Sublist (treeLines s cs) := by
  rw [BlockPart.body_assemble]
  induction cs with
  | nil =>
    rw [lowerBlock, List.flatMap_nil, nodeLines_nil]
    exact List.nil_sublist _
  | cons t r ih =>
    obtain ⟨ht, hr⟩ := List.forall_mem_cons.1 h
    obtain ⟨a, cs⟩ := t
    have hchildren := sublist_children s (.node a cs)
    rw [lowerBlock]
    split
    · exact sublist_treeLines_skip _ (ih hr)
    · split <;> rw [List.flatMap_cons, nodeLines_append]
      · exact sublist_treeLines_cons (List.nil_sublist _) (ih hr)
      · exact sublist_treeLines_cons ((ht.statements scope).trans hchildren) (ih hr)
      · exact sublist_treeLines_cons ((ht.statements scope).trans hchildren) (ih hr)
      · exact sublist_treeLines_cons ((ht.block scope).trans hchildren) (ih hr)
      · exact sublist_treeLines_cons (sublist_bareCall a cs) (ih hr)
      · exact sublist_treeLines_cons (ht.node scope) (ih hr)

/-! ## Classes and modules -/

namespace NamespacePart

def nodes : NamespacePart → List Node
  | .statements l => l
  | _ => []

def superclass? : NamespacePart → Option (Option Node)
  | .superclass n => some n
  | _ => none

theorem body_foldl (l : List NamespacePart) (x : Namespace) :
    (l.foldl addTo x).body = x.body ++ l.flatMap nodes := by
  induction l generalizing x with
  | nil => simp
  | cons p l ih =>
    rw [List.foldl_cons, ih, List.flatMap_cons, ← List.append_assoc]
    cases p <;> simp [addTo, nodes]

/-- The last superclass counts. -/
theorem superclass_foldl (l : List NamespacePart) (x : Namespace) :
    (l.foldl addTo x).superclass = (l.filterMap superclass?).getLast?.getD x.superclass := by
  induction l generalizing x with
  | nil => rfl
  | cons p l ih =>
    rw [List.foldl_cons, ih]
    cases p with
    | superclass n =>
      have hcons : (superclass n :: l).filterMap superclass? = n :: l.filterMap superclass? :=
        List.filterMap_cons_some rfl
      rw [hcons, List.getLast?_cons]
      rfl
    | name n => rw [List.filterMap_cons_none rfl]; rfl
    | statements l => rw [List.filterMap_cons_none rfl]; rfl

theorem line_foldl (l : List NamespacePart) (x : Namespace) :
    (l.foldl addTo x).line = x.line := by
  induction l generalizing x with
  | nil => rfl
  | cons p l ih =>
    rw [List.foldl_cons, ih]
    cases p <;> rfl

end NamespacePart

theorem superclasses_lowerNamespace {cs : List Tree}
    (h : ∀ t ∈ cs, t.isField "superclass" = false) :
    (lowerNamespace s cs).filterMap NamespacePart.superclass? = [] := by
  induction cs with
  | nil => rw [lowerNamespace, List.filterMap_nil]
  | cons t r ih =>
    obtain ⟨ht, hr⟩ := List.forall_mem_cons.1 h
    obtain ⟨a, cs⟩ := t
    rw [lowerNamespace, if_neg (by simp [ht] : ¬(Tree.node a cs).isField "superclass" = true)]
    split
    · rw [List.filterMap_cons_none rfl, ih hr]
    · split
      · exact ih hr
      · split <;> rw [List.filterMap_cons_none rfl, ih hr]

theorem sublist_lowerNamespace {cs : List Tree} (h : ∀ t ∈ cs, Traced s t)
    (hfirst : SuperclassFirst cs) :
    (nodeLines scope
      ((((lowerNamespace s cs).filterMap NamespacePart.superclass?).getLast?.getD none).toList ++
        (lowerNamespace s cs).flatMap NamespacePart.nodes)).Sublist (treeLines s cs) := by
  induction cs with
  | nil =>
    rw [lowerNamespace]
    exact List.nil_sublist _
  | cons t r ih =>
    obtain ⟨ht, hr⟩ := List.forall_mem_cons.1 h
    obtain ⟨hbefore, hrest⟩ := List.pairwise_cons.1 hfirst
    have hih := ih hr hrest
    obtain ⟨a, cs⟩ := t
    have hchildren := sublist_children s (.node a cs)
    rw [lowerNamespace]
    split
    · rw [List.filterMap_cons_none rfl, List.flatMap_cons]
      exact sublist_treeLines_skip _ hih
    · rename_i hname
      split
      · have hcons : (NamespacePart.superclass (lowerFirst s cs) :: lowerNamespace s r).filterMap
            NamespacePart.superclass? = lowerFirst s cs ::
              (lowerNamespace s r).filterMap NamespacePart.superclass? :=
          List.filterMap_cons_some rfl
        rw [hcons, List.flatMap_cons, List.getLast?_cons]
        cases hlast : ((lowerNamespace s r).filterMap NamespacePart.superclass?).getLast? with
        | none =>
          rw [hlast] at hih
          rw [nodeLines_append] at hih ⊢
          exact sublist_treeLines_cons ((ht.first scope).trans hchildren)
            ((List.sublist_append_right _ _).trans hih)
        | some n =>
          rw [hlast] at hih
          exact sublist_treeLines_skip _ hih
      · rename_i hsuper
        split
        · exact sublist_treeLines_skip _ hih
        · rename_i hpart
          -- This row belongs to the body, so no superclass comes after it.
          have hrow : (Tree.node a cs).isBodyRow = true := by
            rw [Tree.isBodyRow]
            simp_all
          have hnone : (lowerNamespace s r).filterMap NamespacePart.superclass? = [] :=
            superclasses_lowerNamespace fun u hu => hbefore u hu hrow
          have hbody : ∀ l : List Node, (nodeLines scope l).Sublist (treeLines s [.node a cs]) →
              (nodeLines scope (([] : List Node) ++ (l ++
                (lowerNamespace s r).flatMap NamespacePart.nodes))).Sublist
                  (treeLines s (.node a cs :: r)) := by
            intro l hl
            rw [hnone] at hih
            rw [List.nil_append, nodeLines_append]
            exact sublist_treeLines_cons hl hih
          split <;> rw [List.filterMap_cons_none rfl, hnone, List.flatMap_cons]
          · exact hbody _ ((ht.statements scope).trans hchildren)
          · exact hbody _ (sublist_bareCall a cs)
          · exact hbody _ (ht.node scope)

/-! ## Trees -/

theorem sublist_space {a : Label} {cs : List Tree} (h : ∀ t ∈ cs, Traced s t)
    (hfirst : SuperclassFirst cs) (kind : NamespaceKind) :
    (nodeLines scope [.space (NamespacePart.assemble kind (s.line a) (lowerNamespace s cs))]).Sublist
      (treeLines s [.node a cs]) := by
  rw [nodeLines_space, treeLines_node, NamespacePart.assemble, NamespacePart.line_foldl,
    NamespacePart.superclass_foldl, NamespacePart.body_foldl, List.nil_append]
  exact (sublist_lowerNamespace h hfirst).cons_cons _

theorem sublist_lower {a : Label} {cs : List Tree} (h : ∀ t ∈ cs, Traced s t)
    (hrows : RowsInOrder (.node a cs)) :
    (nodeLines scope [lower s (.node a cs)]).Sublist (treeLines s [.node a cs]) := by
  have hchildren := sublist_children s (.node a cs)
  have hparts : ∀ kind, (nodeLines scope [.other kind (lowerParts s cs)]).Sublist
      (treeLines s [.node a cs]) := by
    intro kind
    rw [nodeLines_other]
    exact (sublist_lowerParts h).trans hchildren
  have hleaf : ∀ n : Node, nodeLines scope [n] = [] →
      (nodeLines scope [n]).Sublist (treeLines s [.node a cs]) := by
    intro n hn
    rw [hn]
    exact List.nil_sublist _
  have hcall : ∀ c : Call, c.line = s.line a →
      (nodeLines scope [.call c]).Sublist (treeLines s [.node a cs]) := by
    intro c hc
    rw [nodeLines_call, treeLines_node, hc]
    exact (List.nil_sublist _).cons_cons _
  cases hform : Form.ofKind a.kind with
  | nil | truth b | simpleSymbol | keySymbol | constant | method =>
    simp only [lower, hform]
    exact hleaf _ (by simp [nodeLines_singleton, findings])
  | integer =>
    simp only [lower, hform]
    cases integer? (s.text a) with
    | none => exact hleaf _ (by simp [nodeLines_other])
    | some n => exact hleaf _ (by simp [nodeLines_singleton, findings])
  | unary =>
    simp only [lower, hform]
    cases negated? s cs with
    | none => exact hparts a.kind
    | some n => exact hleaf _ (by simp [nodeLines_singleton, findings])
  | string | quotedSymbol =>
    simp only [lower, hform]
    cases stringChars? s (.node a cs) with
    | none => exact hparts a.kind
    | some text => exact hleaf _ (by simp [nodeLines_singleton, findings])
  | chainedString =>
    simp only [lower, hform]
    cases chainedChars? s (cs.filter Tree.isPart) with
    | none => exact hparts a.kind
    | some text => exact hleaf _ (by simp [nodeLines_singleton, findings])
  | array =>
    simp only [lower, hform]
    rw [nodeLines_array]
    exact (sublist_lowerParts h).trans hchildren
  | hash =>
    simp only [lower, hform]
    rw [nodeLines_hash]
    exact (sublist_lowerElements h).trans hchildren
  | scopeResolution =>
    simp only [lower, hform]
    rw [nodeLines_constantPath]
    exact (sublist_lowerField h "scope").trans hchildren
  | call =>
    simp only [lower, hform]
    exact hcall _ rfl
  | assignment =>
    simp only [lower, hform]
    split
    · exact hcall _ rfl
    · exact hparts a.kind
  | lambda =>
    simp only [lower, hform]
    rw [nodeLines_lambda]
    exact (sublist_lowerBlock h).trans hchildren
  | classBody =>
    simp only [lower, hform]
    exact sublist_space h (hrows.1 (Or.inl hform)) .classBody
  | moduleBody =>
    simp only [lower, hform]
    exact sublist_space h (hrows.1 (Or.inr hform)) .moduleBody
  | container =>
    simp only [lower, hform]
    rw [nodeLines_other]
    exact (sublist_lowerStatements h).trans hchildren
  | pair | hashSplat | bodyStatement | blockBody | block | blockParameters | identifier | plain =>
    simp only [lower, hform]
    exact hparts a.kind

theorem traced (t : Tree) (h : ∀ u ∈ t.nodes, RowsInOrder u) : Traced s t := by
  induction t using Tree.induction with
  | h a cs ih =>
    rw [Tree.nodes, List.forall_mem_cons] at h
    have hcs : ∀ t ∈ cs, Traced s t := fun t ht =>
      ih t ht fun u hu => h.2 u (Tree.mem_nodesAll.2 ⟨t, ht, hu⟩)
    exact {
      node := fun scope => sublist_lower hcs h.1
      element := fun scope => sublist_lowerElement hcs h.1
      statements := fun scope => sublist_lowerStatements hcs
      block := fun scope => sublist_lowerBlock hcs
      first := fun scope => sublist_lowerFirst hcs }

/-! ## Surveys -/

theorem pairwise_treeLines {root : Tree} (h : InSourceOrder root) :
    (treeLines s root.children).Pairwise (· ≤ ·) := by
  obtain ⟨a, cs⟩ := root
  have hnodes := h.starts
  rw [Tree.nodes] at hnodes
  rw [treeLines, List.pairwise_map]
  exact (List.pairwise_cons.1 hnodes).2.imp fun hle => line_mono s hle

theorem pairwise_findings {root : Tree} (h : InSourceOrder root) :
    (allFindings [] (Program.ofTree s root).statements).Pairwise fun f g => f.line ≤ g.line := by
  have hsub := (traced (s := s) root h.rows).statements []
  exact List.pairwise_map.1 ((pairwise_treeLines h).sublist hsub)

theorem line_of_declaration? {f : Finding} {p : String × Declaration}
    (h : f.declaration? = some p) : p.2.line = f.line := by
  cases f with
  | declared scope d => cases h; rfl
  | defined d => cases h

theorem line_of_definition? {f : Finding} {d : Definition} (h : f.definition? = some d) :
    d.line = f.line := by
  cases f with
  | declared scope d => cases h
  | defined d => cases h; rfl

/-- The declarations of each bucket and the definitions stand in the order of their lines. -/
theorem survey_lines_ascend (s : Source) (root : Tree) (h : InSourceOrder root) :
    let survey := Survey.ofStatements (Program.ofTree s root).statements
    (∀ space, (survey.table.bucket space).Pairwise fun d e => d.line ≤ e.line) ∧
    survey.definitions.Pairwise fun d e => d.line ≤ e.line := by
  have hfindings := pairwise_findings (s := s) h
  constructor
  · intro space
    have hpairs := hfindings.filterMap (S := fun p q => p.2.line ≤ q.2.line)
      Finding.declaration? fun f g hle p hp q hq => by
        rw [line_of_declaration? hp, line_of_declaration? hq]
        exact hle
    rw [Survey.ofStatements, Survey.ofFindings, Table.bucket_ofPairs]
    exact List.pairwise_map.2 (hpairs.filter _)
  · exact hfindings.filterMap Finding.definition? fun f g hle d hd e he => by
      rw [line_of_definition? hd, line_of_definition? he]
      exact hle

/-! ## A class with a call for its superclass -/

instance (cs : List Tree) : Decidable (SuperclassFirst cs) :=
  inferInstanceAs (Decidable (List.Pairwise _ cs))

instance (cs : List Tree) : Decidable (KeyFirst cs) := inferInstanceAs (Decidable (_ → _))

instance (t : Tree) : Decidable (RowsInOrder t) := inferInstanceAs (Decidable (_ ∧ _))

instance (root : Tree) : Decidable (InSourceOrder root) :=
  decidable_of_iff (root.nodes.Pairwise (fun t u => t.label.start ≤ u.label.start) ∧
    ∀ t ∈ root.nodes, RowsInOrder t) ⟨fun h => ⟨h.1, h.2⟩, fun h => ⟨h.starts, h.rows⟩⟩

def derivedClass : Tree :=
  .clean "program" none 0 24 [
    .clean "class" none 0 21 [
      .clean "constant" (some "name") 6 7 [],
      .clean "superclass" (some "superclass") 8 15 [
        .clean "call" none 10 15 [
          .clean "constant" (some "receiver") 10 11 [],
          .clean "identifier" (some "method") 12 15 []]],
      .clean "body_statement" (some "body") 16 17 [.clean "identifier" none 16 17 []]],
    .clean "identifier" none 22 23 []]

theorem survey_lines_ascend_derivedClass :
    let s := Source.ofString "class A < S.new\nx\nend\ny\n"
    let survey := Survey.ofStatements (Program.ofTree s derivedClass).statements
    InSourceOrder derivedClass ∧ (survey.table.bucket "A").map (·.line) = [1, 2] ∧
      (survey.table.bucket "A").Pairwise (fun d e => d.line ≤ e.line) ∧
      survey.definitions.Pairwise fun d e => d.line ≤ e.line := by
  have horder : InSourceOrder derivedClass := by decide +kernel
  obtain ⟨hbuckets, hdefinitions⟩ := survey_lines_ascend
    (Source.ofString "class A < S.new\nx\nend\ny\n") derivedClass horder
  exact ⟨horder, by decide +kernel, hbuckets "A", hdefinitions⟩

end Syntax

end ModelSurvey
