import ModelSurvey.Facts.DelegatedType
import ModelSurvey.Facts.Enum
import ModelSurvey.Facts.Scope
import ModelSurvey.Facts.SecurePassword

/-! All facts of one namespace, in the order of its declarations. A malformed declaration gives no
fact. Of several facts with one name the last is the effective one. -/
namespace ModelSurvey
set_option autoImplicit false

structure ModelFacts where
  space : String
  enums : List EnumFact
  scopes : List ScopeFact
  delegatedTypes : List DelegatedTypeFact
  securePasswords : List SecurePasswordFact

namespace ModelFacts

def ofDeclarations (space : String) (ds : List Declaration) : ModelFacts where
  space := space
  enums := ds.filterMap EnumFact.extract
  scopes := ds.filterMap ScopeFact.extract
  delegatedTypes := ds.filterMap DelegatedTypeFact.extract
  securePasswords := ds.filterMap SecurePasswordFact.extract

def scope? (f : ModelFacts) (name : String) : Option ScopeFact :=
  f.scopes.reverse.find? fun s => s.name == name

def enum? (f : ModelFacts) (name : String) : Option EnumFact :=
  f.enums.reverse.find? fun e => e.name == name

def isEmpty (f : ModelFacts) : Bool :=
  f.enums.isEmpty && f.scopes.isEmpty && f.delegatedTypes.isEmpty && f.securePasswords.isEmpty

def toJson (f : ModelFacts) : Json :=
  .obj [("namespace", .str f.space), ("enums", .arr (f.enums.map EnumFact.toJson)),
    ("scopes", .arr (f.scopes.map ScopeFact.toJson)),
    ("delegated_types", .arr (f.delegatedTypes.map DelegatedTypeFact.toJson)),
    ("secure_passwords", .arr (f.securePasswords.map SecurePasswordFact.toJson))]

end ModelFacts

end ModelSurvey
