import ModelSurvey.Proofs.Syntax.Lowered
import ModelSurvey.Proofs.Syntax.SourceOrder

/-! Statements under modifiers. The body of an `if`, `unless`, `while` or `until` behind a statement
is lowered as an expression, and what stands in a container of statements is lowered as a statement.
Only for bare identifiers is that a difference: a modifier hides such a call, and it hides no other
statement. -/
namespace ModelSurvey.Syntax
set_option autoImplicit false

/-! ## Containers -/

/-- The ways to take children as statements: those of programs, bodies and branches, those of a
block itself, and those of a class or module itself. -/
inductive Container where
  | list
  | block
  | space (kind : NamespaceKind) (line : Nat)

variable (s : Source)

/-- The nodes that the children of a container become. -/
def Container.nodes (cs : List Tree) : Container → List Node
  | list => lowerStatements s cs
  | block => (BlockPart.assemble (lowerBlock s cs)).body
  | space kind line => (NamespacePart.assemble kind line (lowerNamespace s cs)).body

variable {s}

theorem lowerParts_append (l m : List Tree) :
    lowerParts s (l ++ m) = lowerParts s l ++ lowerParts s m := by
  simp only [lowerParts_eq, List.filter_append, List.map_append]

theorem lowerStatements_append (l m : List Tree) :
    lowerStatements s (l ++ m) = lowerStatements s l ++ lowerStatements s m := by
  induction l with
  | nil => rfl
  | cons t l ih =>
    obtain ⟨a, cs⟩ := t
    rw [List.cons_append, lowerStatements, lowerStatements, ih]
    split
    · rfl
    · split <;> simp

theorem lowerBlock_append (l m : List Tree) :
    lowerBlock s (l ++ m) = lowerBlock s l ++ lowerBlock s m := by
  induction l with
  | nil => rfl
  | cons t l ih =>
    obtain ⟨a, cs⟩ := t
    rw [List.cons_append, lowerBlock, lowerBlock, ih]
    split
    · rfl
    · split <;> rfl

theorem lowerNamespace_append (l m : List Tree) :
    lowerNamespace s (l ++ m) = lowerNamespace s l ++ lowerNamespace s m := by
  induction l with
  | nil => rfl
  | cons t l ih =>
    obtain ⟨a, cs⟩ := t
    rw [List.cons_append, lowerNamespace, lowerNamespace, ih]
    split
    · rfl
    · split
      · rfl
      · split
        · rfl
        · split <;> rfl

theorem Container.nodes_append (c : Container) (l m : List Tree) :
    c.nodes s (l ++ m) = c.nodes s l ++ c.nodes s m := by
  cases c with
  | list => exact lowerStatements_append l m
  | block => simp only [nodes, BlockPart.body_assemble, lowerBlock_append, List.flatMap_append]
  | space kind line =>
    simp only [nodes, NamespacePart.assemble, NamespacePart.body_foldl, lowerNamespace_append,
      List.flatMap_append, List.nil_append]

/-! ## Statements -/

/-- A tree as it can stand among statements: no token and no comment, no wrapper around statements
or parameters, and not the name or the superclass of a class. A bare identifier has no children. -/
structure IsStatement (t : Tree) : Prop where
  part : t.isPart = true
  form : Form.ofKind t.kind ∉ [Form.bodyStatement, .blockBody, .block, .blockParameters]
  field : t.isField "name" = false ∧ t.isField "superclass" = false
  leaf : t.kind = "identifier" → t.children = []

variable (s) in
/-- The node of a statement: a bare identifier is a call. -/
def statementNode (t : Tree) : Node :=
  if t.kind = "identifier" then bareCall s t.label else lower s t

/-- A statement is a bare identifier or has none of the forms that containers treat apart. -/
theorem IsStatement.form_cases {t : Tree} (ht : IsStatement t) :
    (Form.ofKind t.kind = .identifier ∧ statementNode s t = bareCall s t.label) ∨
    (Form.ofKind t.kind ∉ [Form.bodyStatement, .blockBody, .block, .blockParameters, .identifier] ∧
      statementNode s t = lower s t) := by
  by_cases hkind : t.kind = "identifier"
  · exact Or.inl ⟨hkind ▸ rfl, if_pos hkind⟩
  · have hform := ht.form
    have hident := mt Form.kind_of_identifier hkind
    refine Or.inr ⟨?_, if_neg hkind⟩
    simp only [List.mem_cons, List.not_mem_nil, or_false, not_or] at hform ⊢
    exact ⟨hform.1, hform.2.1, hform.2.2.1, hform.2.2.2, hident⟩

theorem Container.nodes_singleton (c : Container) {t : Tree} (ht : IsStatement t) :
    c.nodes s [t] = [statementNode s t] := by
  have hpart := ht.part
  have hfield := ht.field
  have hcases := ht.form_cases (s := s)
  obtain ⟨a, cs⟩ := t
  rw [Tree.kind, Tree.label] at hcases
  rcases hcases with ⟨hform, hnode⟩ | ⟨hform, hnode⟩
  · rw [hnode]
    cases c with
    | list => simp [nodes, lowerStatements, hpart, hform]
    | block => simp [nodes, lowerBlock, hpart, hform, BlockPart.assemble, BlockPart.addTo]
    | space kind line =>
      simp [nodes, lowerNamespace, hpart, hform, hfield, NamespacePart.assemble,
        NamespacePart.addTo]
  · rw [hnode]
    cases c with
    | list =>
      rw [nodes, lowerStatements]
      split
      · simp_all
      · split <;> simp_all [lowerStatements]
    | block =>
      rw [nodes, lowerBlock]
      split
      · simp_all
      · split <;> simp_all [lowerBlock, BlockPart.assemble, BlockPart.addTo]
    | space kind line =>
      rw [nodes, lowerNamespace, if_neg (by simp [hfield]), if_neg (by simp [hfield])]
      split
      · simp_all
      · split <;> simp_all [lowerNamespace, NamespacePart.assemble, NamespacePart.addTo]

/-! ## Findings -/

variable (s) in
/-- What the children of a container hold, found in the namespace `scope`. -/
def Container.findings (c : Container) (scope : List String) (cs : List Tree) : List Finding :=
  allFindings scope (c.nodes s cs)

variable (s) in
/-- What the children of an expression hold, found in the namespace `scope`. -/
def partFindings (scope : List String) (cs : List Tree) : List Finding :=
  allFindings scope (lowerParts s cs)

variable {scope : List String}

theorem Container.findings_append (c : Container) (l m : List Tree) :
    c.findings s scope (l ++ m) = c.findings s scope l ++ c.findings s scope m := by
  rw [findings, nodes_append, allFindings_append]
  rfl

theorem Container.findings_singleton (c : Container) {t : Tree} (ht : IsStatement t) :
    c.findings s scope [t] = ModelSurvey.findings scope (statementNode s t) := by
  rw [findings, nodes_singleton c ht, allFindings, allFindings, List.append_nil]

theorem partFindings_append (l m : List Tree) :
    partFindings s scope (l ++ m) = partFindings s scope l ++ partFindings s scope m := by
  rw [partFindings, lowerParts_append, allFindings_append]
  rfl

theorem partFindings_singleton {t : Tree} (ht : t.isPart = true) :
    partFindings s scope [t] = findings scope (lower s t) := by
  rw [partFindings, lowerParts, if_pos ht, lowerParts, allFindings, allFindings, List.append_nil]

/-! ## Modifiers -/

/-- The kinds of statements with a condition behind them. -/
def modifierKinds : List String :=
  ["if_modifier", "unless_modifier", "while_modifier", "until_modifier"]

/-- The tree where its parent holds it under another field. -/
def Tree.withField (f : String) : Tree → Tree
  | .node a cs => .node { a with field := some f } cs

theorem isPart_withField (f : String) (t : Tree) : (t.withField f).isPart = t.isPart := by
  obtain ⟨a, cs⟩ := t
  rfl

theorem lower_withField (f : String) (t : Tree) : lower s (t.withField f) = lower s t := by
  obtain ⟨a, cs⟩ := t
  rw [Tree.withField, lower, lower]
  rfl

theorem lower_of_mem_modifierKinds {a : Label} {cs : List Tree} (ha : a.kind ∈ modifierKinds) :
    lower s (.node a cs) = .other a.kind (lowerParts s cs) := by
  have hform : ∀ kind ∈ modifierKinds, Form.ofKind kind = .plain := by decide
  rw [lower, hform a.kind ha]

theorem statementNode_of_mem_modifierKinds {a : Label} {cs : List Tree}
    (ha : a.kind ∈ modifierKinds) :
    statementNode s (.node a cs) = .other a.kind (lowerParts s cs) := by
  have hkind : ∀ kind ∈ modifierKinds, kind ≠ "identifier" := by decide
  exact (if_neg (hkind a.kind ha)).trans (lower_of_mem_modifierKinds ha)

theorem findings_body_of_kind_ne (c : Container) {t : Tree} (ht : IsStatement t)
    (hkind : t.kind ≠ "identifier") :
    partFindings s scope [t.withField "body"] = c.findings s scope [t] := by
  rw [partFindings_singleton ((isPart_withField _ t).trans ht.part), lower_withField,
    c.findings_singleton ht, statementNode, if_neg hkind]

theorem findings_body_of_kind_eq {t : Tree} (ht : IsStatement t) (hkind : t.kind = "identifier") :
    partFindings s scope [t.withField "body"] = [] := by
  have hleaf := ht.leaf hkind
  rw [partFindings_singleton ((isPart_withField _ t).trans ht.part), lower_withField]
  obtain ⟨a, cs⟩ := t
  have hform : Form.ofKind a.kind = .identifier := congrArg Form.ofKind hkind
  cases hleaf
  rw [lower, hform, findings, lowerParts, allFindings]

theorem findings_of_kind_eq (c : Container) {t : Tree} (ht : IsStatement t)
    (hkind : t.kind = "identifier") :
    c.findings s scope [t] = [.declared scope (.bare (s.text t.label) (s.line t.label))] := by
  rw [c.findings_singleton ht, statementNode, if_pos hkind, bareCall, findings]

variable (s scope) in
/-- A statement under a modifier stands for its findings, in the same namespace and order, between
those of the modifier's other children, as the statement itself does in the container; exactly a
bare identifier does not: as a statement it is one call, and under a modifier it is none. -/
theorem modifier_hides_bare_calls_only (c : Container) {a : Label} {t : Tree}
    (before left right after : List Tree) (ha : a.kind ∈ modifierKinds) (ht : IsStatement t)
    (hmodifier : IsStatement (.node a (left ++ t.withField "body" :: right))) :
    c.findings s scope (before ++ t :: after) =
      c.findings s scope before ++ c.findings s scope [t] ++ c.findings s scope after ∧
    c.findings s scope (before ++ .node a (left ++ t.withField "body" :: right) :: after) =
      c.findings s scope before ++
        (partFindings s scope left ++ partFindings s scope [t.withField "body"] ++
          partFindings s scope right) ++ c.findings s scope after ∧
    (partFindings s scope [t.withField "body"] = c.findings s scope [t] ↔
      t.kind ≠ "identifier") ∧
    (t.kind = "identifier" → partFindings s scope [t.withField "body"] = [] ∧
      c.findings s scope [t] =
        [.declared scope (.bare (s.text t.label) (s.line t.label))]) := by
  have hplace : ∀ u, c.findings s scope (before ++ u :: after) =
      c.findings s scope before ++ c.findings s scope [u] ++ c.findings s scope after := by
    intro u
    rw [← List.singleton_append, c.findings_append, c.findings_append, List.append_assoc]
  have hinside : c.findings s scope [.node a (left ++ t.withField "body" :: right)] =
      partFindings s scope left ++ partFindings s scope [t.withField "body"] ++
        partFindings s scope right := by
    rw [c.findings_singleton hmodifier, statementNode_of_mem_modifierKinds ha, findings,
      ← partFindings, ← List.singleton_append, partFindings_append, partFindings_append,
      List.append_assoc]
  refine ⟨hplace t, ?_, ⟨fun heq hkind => ?_, findings_body_of_kind_ne c ht⟩, fun hkind =>
    ⟨findings_body_of_kind_eq ht hkind, findings_of_kind_eq c ht hkind⟩⟩
  · rw [hplace, hinside]
  · rw [findings_body_of_kind_eq ht hkind, findings_of_kind_eq c ht hkind] at heq
    cases heq

/-- A condition `if` with a name of four letters, behind a statement that ends at `start`. -/
def conditionFrom (start : Nat) : List Tree :=
  [.node ⟨"if", false, false, false, false, none, start + 1, start + 3⟩ [],
    .clean "identifier" (some "condition") (start + 4) (start + 8) []]

/-- The label of a modifier with such a condition. -/
def conditionalLabel (t : Tree) : Label :=
  ⟨"if_modifier", true, false, false, false, none, t.label.start, t.label.stop + 8⟩

def conditional (t : Tree) : Tree :=
  .node (conditionalLabel t) (t.withField "body" :: conditionFrom t.label.stop)

def scopeCall : Tree := .clean "call" none 0 7 [.clean "identifier" (some "method") 0 5 []]

theorem modifier_hides_bare_calls_only_scope :
    let s := Source.ofString "scope() if cond"
    Container.list.findings s ["Foo"] [conditional scopeCall] =
      Container.list.findings s ["Foo"] [scopeCall] := by
  intro s
  let condition := conditionFrom scopeCall.label.stop
  obtain ⟨-, hmodified, hsame, -⟩ := modifier_hides_bare_calls_only s ["Foo"] .list
    (a := conditionalLabel scopeCall) (t := scopeCall) [] [] condition [] (by decide)
    ⟨by decide, by decide, by decide, by decide⟩ ⟨by decide, by decide, by decide, by decide⟩
  have hcondition : partFindings s ["Foo"] condition = [] := rfl
  calc Container.list.findings s ["Foo"] [conditional scopeCall]
      = partFindings s ["Foo"] [scopeCall.withField "body"] ++
          partFindings s ["Foo"] condition ++ [] := hmodified
    _ = partFindings s ["Foo"] [scopeCall.withField "body"] := by
      rw [hcondition, List.append_nil, List.append_nil]
    _ = Container.list.findings s ["Foo"] [scopeCall] := hsame.2 (by decide)

/-- A class of the length `stop` with one statement in its body. -/
def classWith (stop : Nat) (t : Tree) : Tree :=
  .clean "program" none 0 (stop + 1) [
    .clean "class" none 0 stop [
      .clean "constant" (some "name") 6 9 [],
      .clean "body_statement" (some "body") 12 (stop - 4) [t]]]

def passwordCall : Tree := .clean "identifier" none 12 31 []

theorem modifier_hides_password_call :
    let bare := Survey.ofStatements (Program.ofTree
      (.ofString "class Foo\n  has_secure_password\nend\n") (classWith 35 passwordCall)).statements
    let modified := Survey.ofStatements (Program.ofTree
      (.ofString "class Foo\n  has_secure_password if cond\nend\n")
      (classWith 43 (conditional passwordCall))).statements
    (bare.table.bucket "Foo").map (fun d => (d.name, d.line)) = [("has_secure_password", 2)] ∧
      (modified.table.bucket "Foo").map (fun d => (d.name, d.line)) = [] := by
  decide +kernel

end ModelSurvey.Syntax
