import ModelSurvey.Declaration.Table
import ModelSurvey.Facts.Enum
import ModelSurvey.Text.SnakeCase

/-! Delegated types: a role and the class names it may be played by, from the option `types`. -/
namespace ModelSurvey
set_option autoImplicit false

structure DelegatedTypeFact where
  role : String
  types : List String
  options : Value
  line : Nat

namespace DelegatedTypeFact

def extract (d : Declaration) : Option DelegatedTypeFact :=
  if d.name ≠ "delegated_type" then none
  else match d.values with
    | [] => none
    | first :: rest =>
      first.name?.map fun role =>
        let options := EnumFact.hashOrEmpty rest.head?
        let types := (((options.get? "types").bind Value.array?).getD []).filterMap Value.name?
        ⟨role, types, options, d.line⟩

/-- The accessor name of a class: its snake case with underscores for slashes. -/
def accessor (type : String) : String :=
  String.ofList ((Text.underscore type).toList.map fun c => if c = '/' then '_' else c)

def typeAccessors (t : DelegatedTypeFact) : List String := t.types.map accessor

def toJson (t : DelegatedTypeFact) : Json :=
  .obj [("role", .str t.role), ("types", .arr (t.types.map .str)), ("options", t.options.toJson),
    ("line", .int t.line)]

end DelegatedTypeFact

end ModelSurvey
