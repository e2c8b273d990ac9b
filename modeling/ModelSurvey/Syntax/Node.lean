/-! Lowered syntax of a Ruby source file. Only the shapes that later stages look at have a form of
their own; everything else is `other`, with its kind and its lowered children. A call keeps its
positional arguments and at most one keyword hash among them. -/
namespace ModelSurvey.Syntax
set_option autoImplicit false

/-! ## Parameters of a block -/

inductive RequiredParameter where
  | named (name : String)
  | destructured
deriving DecidableEq, Repr, Inhabited

/-- The rest parameter, anonymous when it has no name. -/
structure RestParameter where
  name : Option String
deriving DecidableEq, Repr, Inhabited

structure KeywordParameter where
  name : String
  required : Bool
deriving DecidableEq, Repr, Inhabited

inductive KeywordRest where
  | named (name : Option String)
  | refused
deriving DecidableEq, Repr, Inhabited

structure Parameters where
  requireds : List RequiredParameter := []
  optionals : List String := []
  rest : Option RestParameter := none
  posts : List RequiredParameter := []
  keywords : List KeywordParameter := []
  keywordRest : Option KeywordRest := none
  block : Option String := none
  forwarding : Bool := false
deriving DecidableEq, Repr, Inhabited

/-! ## Nodes -/

inductive NamespaceKind where
  | classBody
  | moduleBody
deriving DecidableEq, Repr, Inhabited

mutual

inductive Node where
  | nil
  | bool (b : Bool)
  | integer (n : Int)
  | string (text : String)
  | symbol (name : String)
  | array (elements : List Node)
  | hash (elements : List HashElement)
  | keywordHash (elements : List HashElement)
  | constant (name : String)
  | constantPath (scope : Option Node) (name : String)
  | call (call : Call)
  | lambda (block : Block)
  | space (body : Namespace)
  | methodDef (name : String)
  | other (kind : String) (children : List Node)

inductive HashElement where
  | assoc (key value : Node)
  | splat (value : Node)

structure Call where
  receiver : Option Node
  name : String
  arguments : List Node
  block : Option Block
  line : Nat

structure Block where
  parameters : Option Parameters
  body : List Node

structure Namespace where
  kind : NamespaceKind
  name : Node
  superclass : Option Node
  body : List Node
  line : Nat

end

instance : Inhabited Node := ⟨.nil⟩

namespace Call

/-- A call without receiver, arguments or block. -/
def bare (name : String) (line : Nat) : Call := ⟨none, name, [], none, line⟩

instance : Inhabited Call := ⟨bare "" 1⟩

end Call

namespace NamespaceKind

def word : NamespaceKind → String
  | classBody => "class"
  | moduleBody => "module"

end NamespaceKind

namespace Node

def call? : Node → Option Call
  | .call c => some c
  | _ => none

theorem eq_call_of_call? {n : Node} {c : Call} (h : n.call? = some c) : n = .call c := by
  cases n with
  | call d => exact congrArg Node.call (Option.some.inj h)
  | _ => cases h

/-- The word for a node's form; an `other` node has the kind it was lowered from. -/
def kind : Node → String
  | .nil => "nil"
  | .bool true => "true"
  | .bool false => "false"
  | .integer _ => "integer"
  | .string _ => "string"
  | .symbol _ => "symbol"
  | .array _ => "array"
  | .hash _ => "hash"
  | .keywordHash _ => "keyword_hash"
  | .constant _ => "constant"
  | .constantPath _ _ => "constant_path"
  | .call _ => "call"
  | .lambda _ => "lambda"
  | .space s => s.kind.word
  | .methodDef _ => "def"
  | .other kind _ => kind

end Node

namespace Block

def calls (b : Block) : List Call := b.body.filterMap Node.call?

end Block

/-- A lowered source file and the number of places where its text did not parse. -/
structure Program where
  statements : List Node
  errors : Nat

namespace Program

def hasErrors (p : Program) : Bool := decide (0 < p.errors)

end Program

end ModelSurvey.Syntax
