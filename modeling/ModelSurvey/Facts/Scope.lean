import ModelSurvey.Declaration.Table
import ModelSurvey.Json
import ModelSurvey.Value.Evaluate

/-! Scopes: a name and, when the body is a lambda, its parameters. They are listed as required,
optional, rest, required after the rest, keywords and keyword rest; the signature writes each of
them with an untyped argument. -/
namespace ModelSurvey
set_option autoImplicit false
open Syntax

inductive ScopeParameter where
  | required (name : Option String)
  | optional (name : String)
  | rest (name : Option String)
  | requiredKeyword (name : String)
  | optionalKeyword (name : String)
  | keywordRest (name : Option String)
deriving DecidableEq, Repr

namespace ScopeParameter

def render : ScopeParameter → String
  | required (some name) => "untyped " ++ name
  | required none => "untyped"
  | optional name => "?untyped " ++ name
  | rest (some name) => "*untyped " ++ name
  | rest none => "*untyped"
  | requiredKeyword name => name ++ ": untyped"
  | optionalKeyword name => "?" ++ name ++ ": untyped"
  | keywordRest (some name) => "**untyped " ++ name
  | keywordRest none => "**untyped"

def kind : ScopeParameter → String
  | required _ => "required"
  | optional _ => "optional"
  | rest _ => "rest"
  | requiredKeyword _ => "required_keyword"
  | optionalKeyword _ => "optional_keyword"
  | keywordRest _ => "keyword_rest"

def name? : ScopeParameter → Option String
  | required name | rest name | keywordRest name => name
  | optional name | requiredKeyword name | optionalKeyword name => some name

def toJson (p : ScopeParameter) : Json :=
  .obj [("kind", .str p.kind), ("name", (p.name?.map Json.str).getD .null)]

def ofRequired : RequiredParameter → ScopeParameter
  | .named name => required (some name)
  | .destructured => required none

def ofKeyword (k : KeywordParameter) : ScopeParameter :=
  if k.required then requiredKeyword k.name else optionalKeyword k.name

/-- A refused keyword rest counts as an anonymous one. -/
def ofKeywordRest : KeywordRest → ScopeParameter
  | .named name => keywordRest name
  | .refused => keywordRest none

def ofParameters (ps : Parameters) : List ScopeParameter :=
  ps.requireds.map ofRequired ++ ps.optionals.map optional ++
    (ps.rest.map fun r => rest r.name).toList ++ ps.posts.map ofRequired ++
    ps.keywords.map ofKeyword ++ (ps.keywordRest.map ofKeywordRest).toList

end ScopeParameter

/-- A scope; without parameters its body is not a lambda. -/
structure ScopeFact where
  name : String
  parameters : Option (List ScopeParameter)
  line : Nat
deriving DecidableEq, Repr

namespace ScopeFact

/-- The block of a lambda, written as a literal or with the words `lambda` or `proc`. -/
def lambdaBody? : Node → Option Block
  | .lambda b => some b
  | .call ⟨none, name, _, block, _⟩ =>
    if name = "lambda" ∨ name = "proc" then block else none
  | _ => none

def extract (d : Declaration) : Option ScopeFact :=
  if d.name ≠ "scope" then none
  else match d.arguments with
    | [] => none
    | first :: rest =>
      (first.evaluate.bind Value.name?).map fun name =>
        let body := rest.head?.bind lambdaBody?
        let parameters := body.map fun b => (b.parameters.map ScopeParameter.ofParameters).getD []
        ⟨name, parameters, d.line⟩

def signature (s : ScopeFact) : String :=
  match s.parameters with
  | some ps => "(" ++ ", ".intercalate (ps.map ScopeParameter.render) ++ ")"
  | none => "(?)"

def toJson (s : ScopeFact) : Json :=
  .obj [("name", .str s.name),
    ("parameters", (s.parameters.map fun ps => Json.arr (ps.map ScopeParameter.toJson)).getD .null),
    ("line", .int s.line)]

end ScopeFact

end ModelSurvey
