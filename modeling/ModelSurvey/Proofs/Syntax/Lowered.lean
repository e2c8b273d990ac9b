import Mathlib.Data.List.Basic
import ModelSurvey.Syntax.Lower

/-! What a tree can be lowered to. The lists that lowering makes of a node's children are filters
and searches among them, and each node is lowered to one of a few shapes over these lists. -/
namespace ModelSurvey.Syntax
set_option autoImplicit false

/-! ## Kinds -/

namespace Form

theorem mem_table_of_ofKind {kind : String} {form : Form} (h : ofKind kind = form)
    (hne : form ≠ plain) : (kind, form) ∈ table := by
  rw [ofKind] at h
  cases hlookup : table.lookup kind with
  | none =>
    rw [hlookup] at h
    exact absurd h.symm hne
  | some f =>
    rw [hlookup, Option.getD_some] at h
    obtain ⟨before, after, htable, -⟩ := List.lookup_eq_some_iff.1 hlookup
    rw [htable, h]
    exact List.mem_append_right _ (List.mem_cons_self ..)

theorem ofKind_eq_pair_iff {kind : String} : ofKind kind = pair ↔ kind = "pair" := by
  refine ⟨fun h => ?_, fun h => h ▸ rfl⟩
  simpa [table] using mem_table_of_ofKind h (by decide)

theorem ofKind_eq_hashSplat_iff {kind : String} :
    ofKind kind = hashSplat ↔ kind = "hash_splat_argument" := by
  refine ⟨fun h => ?_, fun h => h ▸ rfl⟩
  simpa [table] using mem_table_of_ofKind h (by decide)

theorem kind_of_identifier {kind : String} (h : ofKind kind = identifier) :
    kind = "identifier" := by
  simpa [table] using mem_table_of_ofKind h (by decide)

theorem kind_of_call {kind : String} (h : ofKind kind = call) :
    kind = "call" ∨ kind = "method_call" := by
  simpa [table] using mem_table_of_ofKind h (by decide)

theorem kind_of_assignment {kind : String} (h : ofKind kind = assignment) :
    kind = "assignment" := by
  simpa [table] using mem_table_of_ofKind h (by decide)

theorem kind_of_classBody {kind : String} (h : ofKind kind = classBody) : kind = "class" := by
  simpa [table] using mem_table_of_ofKind h (by decide)

theorem kind_of_moduleBody {kind : String} (h : ofKind kind = moduleBody) : kind = "module" := by
  simpa [table] using mem_table_of_ofKind h (by decide)

end Form

/-! ## Lists of children -/

variable (s : Source)

theorem lowerParts_eq (cs : List Tree) :
    lowerParts s cs = (cs.filter Tree.isPart).map (lower s) := by
  induction cs with
  | nil => rw [lowerParts, List.filter_nil, List.map_nil]
  | cons t r ih =>
    rw [lowerParts, ih, List.filter_cons]
    split
    · rw [List.map_cons]
    · rfl

theorem lowerField_eq (f : String) (cs : List Tree) :
    lowerField s f cs = (cs.find? (Tree.isField f)).map (lower s) := by
  induction cs with
  | nil => rw [lowerField, List.find?_nil, Option.map_none]
  | cons t r ih =>
    rw [lowerField, ih, List.find?_cons]
    cases t.isField f <;> rfl

theorem lowerFirst_eq (cs : List Tree) :
    lowerFirst s cs = (cs.find? Tree.isPart).map (lower s) := by
  induction cs with
  | nil => rw [lowerFirst, List.find?_nil, Option.map_none]
  | cons t r ih =>
    rw [lowerFirst, ih, List.find?_cons]
    cases t.isPart <;> rfl

theorem lowerElements_eq (cs : List Tree) :
    lowerElements s cs = (cs.filter Tree.isPart).filterMap (lowerElement s) := by
  induction cs with
  | nil => rw [lowerElements, List.filter_nil, List.filterMap_nil]
  | cons t r ih =>
    rw [lowerElements, ih, List.filter_cons]
    split
    · rw [List.filterMap_cons]
      cases lowerElement s t <;> rfl
    · rfl

theorem lowerArguments_eq (cs : List Tree) :
    lowerArguments s cs = (cs.find? (Tree.isField "arguments")).elim []
      fun list => lowerArgumentList s list.children := by
  induction cs with
  | nil => rw [lowerArguments, List.find?_nil, Option.elim_none]
  | cons t r ih =>
    obtain ⟨a, cs⟩ := t
    rw [lowerArguments, ih, List.find?_cons]
    cases (Tree.node a cs).isField "arguments" <;> rfl

theorem lowerBlockField_eq (cs : List Tree) :
    lowerBlockField s cs = (cs.find? (Tree.isField "block")).map
      fun block => BlockPart.assemble (lowerBlock s block.children) := by
  induction cs with
  | nil => rw [lowerBlockField, List.find?_nil, Option.map_none]
  | cons t r ih =>
    obtain ⟨a, cs⟩ := t
    rw [lowerBlockField, ih, List.find?_cons]
    cases (Tree.node a cs).isField "block" <;> rfl

/-- The receiver and the attribute are those of the call on the left side. -/
theorem lowerWriter_eq_some {cs : List Tree} {receiver : Node} {method : String}
    (h : lowerWriter s cs = some (receiver, method)) :
    ∃ left ∈ cs, lowerField s "receiver" left.children = some receiver := by
  induction cs with
  | nil =>
    rw [lowerWriter] at h
    cases h
  | cons t r ih =>
    obtain ⟨a, cs⟩ := t
    rw [lowerWriter] at h
    split at h
    · split at h
      · split at h
        · rename_i hreceiver hmethod
          cases h
          exact ⟨_, List.mem_cons_self .., hreceiver⟩
        · cases h
      · cases h
    · obtain ⟨left, hleft, hreceiver⟩ := ih h
      exact ⟨left, List.mem_cons_of_mem _ hleft, hreceiver⟩

/-! ## Shapes -/

/-- A literal, a constant or a method, or a node whose children are left out. -/
def Node.isAtom : Node → Bool
  | .nil | .bool _ | .integer _ | .string _ | .symbol _ | .constant _ | .methodDef _ => true
  | .other _ children => children.isEmpty
  | _ => false

/-- The shapes that a tree can be lowered to. -/
inductive Lowered (t : Tree) : Node → Prop where
  | atom {n : Node} (h : n.isAtom = true) : Lowered t n
  | other : Lowered t (.other t.kind (lowerParts s t.children))
  | container : Lowered t (.other t.kind (lowerStatements s t.children))
  | array : Lowered t (.array (lowerParts s t.children))
  | hash : Lowered t (.hash (lowerElements s t.children))
  | path (name : String) : Lowered t (.constantPath (lowerField s "scope" t.children) name)
  | call (h : t.kind = "call" ∨ t.kind = "method_call") (name : String) :
    Lowered t (.call {
      receiver := lowerField s "receiver" t.children
      name := name
      arguments := Argument.gather (lowerArguments s t.children)
      block := lowerBlockField s t.children
      line := s.line t.label })
  | writer {receiver value : Node} {method : String} (h : t.kind = "assignment")
    (hleft : lowerWriter s t.children = some (receiver, method))
    (hright : lowerField s "right" t.children = some value) :
    Lowered t (.call ⟨some receiver, method ++ "=", [value], none, s.line t.label⟩)
  | lambda : Lowered t (.lambda (BlockPart.assemble (lowerBlock s t.children)))
  | space {kind : NamespaceKind} (h : t.kind = kind.word) :
    Lowered t (.space (NamespacePart.assemble kind (s.line t.label) (lowerNamespace s t.children)))

theorem lowered (t : Tree) : Lowered s t (lower s t) := by
  obtain ⟨a, cs⟩ := t
  cases hform : Form.ofKind a.kind with
  | nil | truth b | simpleSymbol | keySymbol | constant | method =>
    simp only [lower, hform]
    exact .atom rfl
  | integer =>
    simp only [lower, hform]
    cases integer? (s.text a) <;> exact .atom rfl
  | unary =>
    simp only [lower, hform]
    cases negated? s cs with
    | none => exact .other
    | some n => exact .atom rfl
  | string | quotedSymbol =>
    simp only [lower, hform]
    cases stringChars? s (.node a cs) with
    | none => exact .other
    | some text => exact .atom rfl
  | chainedString =>
    simp only [lower, hform]
    cases chainedChars? s (cs.filter Tree.isPart) with
    | none => exact .other
    | some text => exact .atom rfl
  | array =>
    simp only [lower, hform]
    exact .array
  | hash =>
    simp only [lower, hform]
    exact .hash
  | scopeResolution =>
    simp only [lower, hform]
    exact .path _
  | call =>
    simp only [lower, hform]
    apply Lowered.call
    exact Form.kind_of_call hform
  | assignment =>
    simp only [lower, hform]
    split
    · rename_i hleft hright
      exact .writer (Form.kind_of_assignment hform) hleft hright
    · exact .other
  | lambda =>
    simp only [lower, hform]
    exact .lambda
  | classBody =>
    simp only [lower, hform]
    exact .space (Form.kind_of_classBody hform)
  | moduleBody =>
    simp only [lower, hform]
    exact .space (Form.kind_of_moduleBody hform)
  | container =>
    simp only [lower, hform]
    exact .container
  | pair | hashSplat | bodyStatement | blockBody | block | blockParameters | identifier | plain =>
    simp only [lower, hform]
    exact .other

end ModelSurvey.Syntax
