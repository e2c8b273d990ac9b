import ModelSurvey.Declaration.Table
import ModelSurvey.Json
import ModelSurvey.Value.Evaluate

/-! Secure passwords: the attribute that holds the password, `password` unless one is named, and
whether it is validated. -/
namespace ModelSurvey
set_option autoImplicit false

structure SecurePasswordFact where
  attributeName : String
  validations : Bool
  line : Nat
deriving DecidableEq, Repr

namespace SecurePasswordFact

def defaultAttribute : String := "password"

/-- The attribute that the arguments name; options alone name none. -/
def namedAttribute? : List Value → Option String
  | [] | .hash _ :: _ => some defaultAttribute
  | v :: _ => v.name?

def extract (d : Declaration) : Option SecurePasswordFact :=
  if d.name ≠ "has_secure_password" then none
  else (namedAttribute? d.values).map fun name =>
    let validations := d.values.findSome? fun v => v.get? "validations"
    ⟨name, (validations.map Value.isTruthy).getD true, d.line⟩

def authenticateMethod (p : SecurePasswordFact) : String := "authenticate_" ++ p.attributeName

def toJson (p : SecurePasswordFact) : Json :=
  .obj [("attribute", .str p.attributeName), ("validations", .bool p.validations),
    ("line", .int p.line)]

end SecurePasswordFact

end ModelSurvey
