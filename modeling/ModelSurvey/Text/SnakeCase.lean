import ModelSurvey.Name

/-! Snake case for constant names: `Shop::LineItem` becomes `shop/line_item`. A capital starts a new
word after a small letter or digit, and as the last capital of a run when a small letter follows.
Only ASCII letters have case here. -/
namespace ModelSurvey.Text
set_option autoImplicit false

def slashMarks : List Char → List Char
  | [] => []
  | ':' :: ':' :: r => '/' :: slashMarks r
  | c :: r => c :: slashMarks r

/-- Whether a word starts at the capital between `before` and `after`. -/
def startsWord (before : Char) (after : Option Char) : Bool :=
  before.isLower || before.isDigit || (before.isUpper && after.any Char.isLower)

def snakeChar (c : Char) : Char := if c = '-' then '_' else c.toLower

/-- Snake case of what follows the character `before`. -/
def snakeAfter (before : Char) : List Char → List Char
  | [] => []
  | c :: r =>
    if c.isUpper && startsWord before r.head? then '_' :: snakeChar c :: snakeAfter c r
    else snakeChar c :: snakeAfter c r

def snakeChars : List Char → List Char
  | [] => []
  | c :: r => snakeChar c :: snakeAfter c r

/-- The name as a path in snake case, a slash for each `::` and none for leading ones. -/
def underscore (name : String) : String :=
  String.ofList (snakeChars (slashMarks (Name.unroot name).toList))

end ModelSurvey.Text
