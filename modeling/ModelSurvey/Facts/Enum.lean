import ModelSurvey.Declaration.Table
import ModelSurvey.Value.Evaluate
import ModelSurvey.Value.Render

/-! Enums: a name, the listed values or the keys of a mapping, and options. The methods of an enum
are named after its values, between an optional prefix and suffix, with every run of ASCII
characters that no identifier may hold replaced by an underscore. -/
namespace ModelSurvey
set_option autoImplicit false

structure EnumFact where
  name : String
  values : List Value
  options : Value
  line : Nat

namespace EnumFact

/-- The value if it is a hash, else an empty one. -/
def hashOrEmpty : Option Value → Value
  | some (.hash pairs) => .hash pairs
  | _ => .hash []

/-- The enum that a declaration describes; its first argument must be a name. -/
def extract (d : Declaration) : Option EnumFact :=
  if d.name ≠ "enum" then none
  else match d.values with
    | [] => none
    | first :: rest =>
      first.name?.map fun name =>
        match rest with
        | .array values :: more => ⟨name, values, hashOrEmpty more.head?, d.line⟩
        | .hash pairs :: more => ⟨name, pairs.map Prod.fst, hashOrEmpty more.head?, d.line⟩
        | _ => ⟨name, [], .hash [], d.line⟩

/-! ## Method names -/

/-- An ASCII character that cannot stand in an identifier. -/
def isForeign (c : Char) : Bool := decide (c.toNat < 128) && !(c.isAlphanum || c == '_')

/-- Replaces each run of foreign characters by one underscore; `inRun` says whether one is open. -/
def sanitizeFrom (inRun : Bool) : List Char → List Char
  | [] => []
  | c :: r =>
    if isForeign c then (if inRun then sanitizeFrom true r else '_' :: sanitizeFrom true r)
    else c :: sanitizeFrom false r

def sanitize (s : String) : String := String.ofList (sanitizeFrom false s.toList)

/-- The text an affix option asks for: `true` is the enum's own name. -/
def affix? (e : EnumFact) (key : String) : Option String :=
  match e.options.get? key with
  | some (.bool true) => some e.name
  | some v => v.name?
  | none => none

def methodName (e : EnumFact) (v : Value) : String :=
  sanitize ("_".intercalate
    ((e.affix? "prefix").toList ++ [v.plain] ++ (e.affix? "suffix").toList))

def methodNames (e : EnumFact) : List String := e.values.map e.methodName

/-! ## Switches -/

/-- A switch is on unless an option turns it off. -/
def switch (e : EnumFact) (key : String) : Bool :=
  ((e.options.get? key).map Value.isTruthy).getD true

def instanceMethods (e : EnumFact) : Bool := e.switch "instance_methods"

def scopes (e : EnumFact) : Bool := e.switch "scopes"

def toJson (e : EnumFact) : Json :=
  .obj [("name", .str e.name), ("values", .arr (e.values.map Value.toJson)),
    ("options", e.options.toJson), ("line", .int e.line)]

end EnumFact

end ModelSurvey
