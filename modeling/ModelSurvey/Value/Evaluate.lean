import ModelSurvey.Name
import ModelSurvey.Syntax.Node
import ModelSurvey.Value.Basic

/-! Evaluation of literal nodes. Calls, interpolation, variables and control flow have no value. An
array keeps the slot of an element without a value as `nil`; a hash drops a pair whose key has none
and skips splats. A constant's value is its name. -/
namespace ModelSurvey.Syntax.Node
set_option autoImplicit false

/-- The path that a constant or a chain of constants spells; a rooted one begins with `::`. -/
def path? : Node → Option String
  | .constant name => some name
  | .constantPath none name => some (Name.mark ++ name)
  | .constantPath (some scope) name => (path? scope).map fun outer => outer ++ Name.mark ++ name
  | _ => none

mutual

def evaluate : Node → Option Value
  | .nil => some .nil
  | .bool b => some (.bool b)
  | .integer n => some (.integer n)
  | .string text => some (.string text)
  | .symbol name => some (.symbol name)
  | .array elements => some (.array (evaluateAll elements))
  | .hash elements => some (.hash (evaluatePairs [] elements))
  | .keywordHash elements => some (.hash (evaluatePairs [] elements))
  | .constant name => some (.string name)
  | .constantPath scope name => (path? (.constantPath scope name)).map .string
  | _ => none

/-- The values of some nodes, `nil` for each that has none. -/
def evaluateAll : List Node → List Value
  | [] => []
  | n :: r => (evaluate n).getD .nil :: evaluateAll r

/-- Inserts the pairs of a hash literal, in order, after those of `pairs`. -/
def evaluatePairs (pairs : List (Value × Value)) : List HashElement → List (Value × Value)
  | [] => pairs
  | .splat _ :: r => evaluatePairs pairs r
  | .assoc key value :: r =>
    match evaluate key with
    | none => evaluatePairs pairs r
    | some k => evaluatePairs (Value.insert k ((evaluate value).getD .nil) pairs) r

end

end ModelSurvey.Syntax.Node

namespace ModelSurvey.Syntax.Call
set_option autoImplicit false

def values (c : Call) : List Value := Node.evaluateAll c.arguments

end ModelSurvey.Syntax.Call
