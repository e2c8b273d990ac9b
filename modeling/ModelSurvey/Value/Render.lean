import ModelSurvey.Json
import ModelSurvey.Text.Quoted
import ModelSurvey.Value.Basic

/-! Three texts of a value: as source code, as plain text, and as JSON. In source code a string is
quoted and a symbol key is written in front of its value with a colon; as plain text `nil` is empty
and strings and symbols stand for themselves; in JSON the keys of a hash are plain texts. -/
namespace ModelSurvey.Value
set_option autoImplicit false

mutual

def display : Value → String
  | nil => "nil"
  | bool b => if b then "true" else "false"
  | integer n => toString n
  | string s => Text.quote s
  | symbol s => ":" ++ s
  | array items => "[" ++ ", ".intercalate (displayItems items) ++ "]"
  | hash [] => "\x7b\x7d"
  | hash (p :: ps) => "\x7b " ++ ", ".intercalate (displayPairs (p :: ps)) ++ " \x7d"

def displayItems : List Value → List String
  | [] => []
  | v :: r => display v :: displayItems r

def displayPairs : List (Value × Value) → List String
  | [] => []
  | (symbol s, v) :: r => (s ++ ": " ++ display v) :: displayPairs r
  | (k, v) :: r => (display k ++ " => " ++ display v) :: displayPairs r

end

def plain : Value → String
  | nil => ""
  | bool b => if b then "true" else "false"
  | integer n => toString n
  | string s | symbol s => s
  | v => display v

mutual

def toJson : Value → Json
  | nil => .null
  | bool b => .bool b
  | integer n => .int n
  | string s => .str s
  | symbol s => .str s
  | array items => .arr (itemsJson items)
  | hash pairs => .obj (pairsJson pairs)

def itemsJson : List Value → List Json
  | [] => []
  | v :: r => toJson v :: itemsJson r

def pairsJson : List (Value × Value) → List (String × Json)
  | [] => []
  | (k, v) :: r => (plain k, toJson v) :: pairsJson r

end

end ModelSurvey.Value
