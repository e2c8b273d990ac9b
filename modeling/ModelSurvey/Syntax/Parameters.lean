import ModelSurvey.Syntax.Node
import ModelSurvey.Syntax.Tree

/-! Parameter lists of blocks and lambdas. The children are taken from left to right; a required
parameter goes to `posts` once a rest parameter was seen, and block-local variables are left out. -/
namespace ModelSurvey.Syntax
set_option autoImplicit false

/-- One written parameter. An optional or keyword parameter without a name is not one. -/
inductive Parameter where
  | required (p : RequiredParameter)
  | optional (name : String)
  | rest (name : Option String)
  | keyword (name : String) (required : Bool)
  | keywordRest (k : KeywordRest)
  | block (name : Option String)
  | forwarding
deriving DecidableEq, Repr

namespace Parameter

def fieldText? (s : Source) (f : String) (t : Tree) : Option String :=
  (t.field? f).map fun n => s.text n.label

def ofTree? (s : Source) (t : Tree) : Option Parameter :=
  match t.kind with
  | "identifier" => some (.required (.named (s.text t.label)))
  | "destructured_parameter" => some (.required .destructured)
  | "optional_parameter" => (fieldText? s "name" t).map .optional
  | "splat_parameter" => some (.rest (fieldText? s "name" t))
  | "keyword_parameter" =>
    (fieldText? s "name" t).map fun name => .keyword name (t.field? "value").isNone
  | "hash_splat_parameter" => some (.keywordRest (.named (fieldText? s "name" t)))
  | "hash_splat_nil" => some (.keywordRest .refused)
  | "block_parameter" => some (.block (fieldText? s "name" t))
  | "forward_parameter" => some .forwarding
  | _ => none

end Parameter

namespace Parameters

/-- The list with one more parameter, written after the ones before. -/
def add (ps : Parameters) : Parameter → Parameters
  | .required p =>
    if ps.rest.isSome then { ps with posts := ps.posts ++ [p] }
    else { ps with requireds := ps.requireds ++ [p] }
  | .optional name => { ps with optionals := ps.optionals ++ [name] }
  | .rest name => { ps with rest := some ⟨name⟩ }
  | .keyword name required => { ps with keywords := ps.keywords ++ [⟨name, required⟩] }
  | .keywordRest k => { ps with keywordRest := some k }
  | .block name => { ps with block := name }
  | .forwarding => { ps with forwarding := true }

def ofList (l : List Parameter) : Parameters := l.foldl add {}

def ofTrees (s : Source) (children : List Tree) : Parameters :=
  ofList ((children.filter fun t => t.isPart && !t.isField "locals").filterMap
    (Parameter.ofTree? s))

end Parameters

end ModelSurvey.Syntax
