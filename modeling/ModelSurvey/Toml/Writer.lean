import ModelSurvey.Toml.Basic
import ModelSurvey.Toml.Quoted

/-! Writing TOML: sections of assignments with a blank line between sections, and arrays on one
line. -/
namespace ModelSurvey.Toml
set_option autoImplicit false

/-- A value that a section may assign. -/
inductive Plain where
  | integer (n : Int)
  | boolean (b : Bool)
  | strings (l : List String)
deriving DecidableEq, Repr

namespace Plain

def toToml : Plain → Toml
  | integer n => .integer n
  | boolean b => .boolean b
  | strings l => .array (l.map .string)

def write : Plain → String
  | integer n => toString n
  | boolean b => if b then "true" else "false"
  | strings l =>
    "[" ++ ", ".intercalate (l.map fun s => String.ofList (writeString s.toList)) ++ "]"

end Plain

/-- A section: its name and what it assigns, in order. The names are bare keys. -/
structure Section where
  name : String
  assignments : List (String × Plain)

namespace Section

def write (s : Section) : String :=
  "[" ++ s.name ++ "]\n" ++
    String.join (s.assignments.map fun a => a.1 ++ " = " ++ a.2.write ++ "\n")

end Section

def writeSections (l : List Section) : String := "\n".intercalate (l.map Section.write)

end ModelSurvey.Toml
