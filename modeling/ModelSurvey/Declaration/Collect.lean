import ModelSurvey.Declaration.Table
import ModelSurvey.Value.Evaluate

/-! What a walk over lowered statements finds: the calls outside method bodies, each with the
segments of the classes and modules around it, and the classes and modules themselves. A call is a
leaf; its arguments and block stay with it. A name that does not evaluate adds no segments. -/
namespace ModelSurvey
set_option autoImplicit false
open Syntax

/-- A class or module body met during the walk, with its full name. -/
structure Definition where
  name : String
  kind : NamespaceKind
  line : Nat
deriving DecidableEq, Repr

inductive Finding where
  | declared (scope : List String) (d : Declaration)
  | defined (d : Definition)

namespace Finding

def declaration? : Finding → Option (String × Declaration)
  | declared scope d => some (Name.join scope, d)
  | defined _ => none

def definition? : Finding → Option Definition
  | declared _ _ => none
  | defined d => some d

end Finding

/-- The segments that the name of a class or module adds. -/
def nameSegments (n : Node) : List String :=
  match n.evaluate.bind Value.name? with
  | some name => Name.segments name
  | none => []

mutual

/-- The findings in a node that stands inside the namespace `scope`, in source order. -/
def findings (scope : List String) : Node → List Finding
  | .call c => [.declared scope c]
  | .space s => spaceFindings scope s
  | .lambda b => blockFindings scope b
  | .array elements => allFindings scope elements
  | .other _ children => allFindings scope children
  | .hash elements => elementFindings scope elements
  | .keywordHash elements => elementFindings scope elements
  | .constantPath outer _ => optionalFindings scope outer
  | _ => []

def allFindings (scope : List String) : List Node → List Finding
  | [] => []
  | n :: r => findings scope n ++ allFindings scope r

def elementFindings (scope : List String) : List HashElement → List Finding
  | [] => []
  | .assoc key value :: r =>
    findings scope key ++ findings scope value ++ elementFindings scope r
  | .splat value :: r => findings scope value ++ elementFindings scope r

def optionalFindings (scope : List String) : Option Node → List Finding
  | none => []
  | some n => findings scope n

def blockFindings (scope : List String) : Block → List Finding
  | ⟨_, body⟩ => allFindings scope body

/-- The body itself, then what its superclass and its statements hold. -/
def spaceFindings (scope : List String) : Namespace → List Finding
  | ⟨kind, name, superclass, body, line⟩ =>
    let inner := scope ++ nameSegments name
    .defined ⟨Name.join inner, kind, line⟩ ::
      (optionalFindings inner superclass ++ allFindings inner body)

end

theorem allFindings_append (scope : List String) (l m : List Node) :
    allFindings scope (l ++ m) = allFindings scope l ++ allFindings scope m := by
  induction l with
  | nil => rw [List.nil_append, allFindings, List.nil_append]
  | cons n l ih => rw [List.cons_append, allFindings, allFindings, ih, List.append_assoc]

/-! ## Surveys of a file -/

/-- The declarations and the definitions of some statements. -/
structure Survey where
  table : Table
  definitions : List Definition

namespace Survey

def ofFindings (l : List Finding) : Survey :=
  ⟨.ofPairs (l.filterMap Finding.declaration?), l.filterMap Finding.definition?⟩

def ofStatements (statements : List Node) : Survey := ofFindings (allFindings [] statements)

def ofBatches (batches : List (List Node)) : Survey :=
  ofFindings (batches.flatMap (allFindings []))

end Survey

end ModelSurvey
