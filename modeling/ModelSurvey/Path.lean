import ModelSurvey.Text.Blank

/-! Paths as texts. Joining only puts a slash between, and nothing is normalised. Two paths are the
same place when their components agree, and components give the order of paths: a parent step comes
before every name. -/
namespace ModelSurvey
set_option autoImplicit false
open Text

structure Path where
  text : String
deriving DecidableEq, Repr, Inhabited

namespace Path

inductive Component where
  | root
  | current
  | parent
  | name (s : String)
deriving DecidableEq, Repr, Inhabited

def isAbsolute (p : String) : Bool := p.toList.head? == some '/'

/-- The path `p` seen from `base`. An absolute `p` replaces the base. -/
def join (base : Path) (p : String) : Path :=
  if isAbsolute p then ⟨p⟩
  else if base.text.isEmpty || base.text.toList.getLast? == some '/' then ⟨base.text ++ p⟩
  else ⟨base.text ++ "/" ++ p⟩

/-- What a piece between slashes stands for, unless it is skipped. A dot counts only in front. -/
def component? (first : Bool) (piece : List Char) : Option Component :=
  if piece = [] then none
  else if piece = ['.'] then (if first then some .current else none)
  else if piece = ['.', '.'] then some .parent
  else some (.name (String.ofList piece))

def components (p : Path) : List Component :=
  match pieces (· == '/') p.text.toList with
  | [] => []
  | [] :: r => (if isAbsolute p.text then [.root] else []) ++ r.filterMap (component? false)
  | w :: r => (component? true w).toList ++ r.filterMap (component? false)

/-! ## Order -/

/-- Whether `a` stands before `b`. -/
def Component.before : Component → Component → Bool
  | .root, .root => false
  | .root, _ => true
  | .current, .root => false
  | .current, .current => false
  | .current, _ => true
  | .parent, .name _ => true
  | .parent, _ => false
  | .name a, .name b => decide (a < b)
  | .name _, _ => false

def componentsBefore : List Component → List Component → Bool
  | _, [] => false
  | [], _ :: _ => true
  | a :: r, b :: s => a.before b || (a == b && componentsBefore r s)

def before (p q : Path) : Bool := componentsBefore p.components q.components

def samePlace (p q : Path) : Bool := p.components == q.components

/-! ## Extensions -/

/-- The text after the last dot of a file name, if something stands before that dot. -/
def extensionOf (name : String) : Option String :=
  let back := name.toList.reverse
  match back.dropWhile (· ≠ '.') with
  | _ :: _ :: _ => some (String.ofList (back.takeWhile (· ≠ '.')).reverse)
  | _ => none

end Path

end ModelSurvey
