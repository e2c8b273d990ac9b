import ModelSurvey.Syntax.Cursor
import ModelSurvey.Syntax.Form
import ModelSurvey.Syntax.Literal
import ModelSurvey.Syntax.Parameters

/-! Lowering concrete trees to nodes, by recursion on the tree. A bare identifier where a statement
stands is a call; the pairs of an argument list become one keyword hash; the bodies of methods are
never looked into. Arguments, blocks and class bodies are first taken apart into lists of parts and
then put together. -/
namespace ModelSurvey.Syntax
set_option autoImplicit false
open Text

/-! ## Parts of composite nodes -/

/-- One argument as written, before the keyword arguments are gathered. -/
inductive Argument where
  | positional (n : Node)
  | keyword (e : HashElement)

namespace Argument

def positional? : Argument → Option Node
  | positional n => some n
  | keyword _ => none

def keyword? : Argument → Option HashElement
  | positional _ => none
  | keyword e => some e

/-- All keyword arguments as one hash, standing where the first of them stood. -/
def gather : List Argument → List Node
  | [] => []
  | positional n :: r => n :: gather r
  | keyword e :: r => .keywordHash (e :: r.filterMap keyword?) :: r.filterMap positional?

end Argument

/-- A part of a block: its parameter list, statements, or a block nested in a lambda. -/
inductive BlockPart where
  | parameters (ps : Parameters)
  | statements (l : List Node)
  | inner (b : Block)

namespace BlockPart

/-- The block with one more part. An inner block's parameters count if there are none yet. -/
def addTo (b : Block) : BlockPart → Block
  | parameters ps => { b with parameters := some ps }
  | statements l => { b with body := b.body ++ l }
  | inner i => ⟨b.parameters.or i.parameters, b.body ++ i.body⟩

def assemble (l : List BlockPart) : Block := l.foldl addTo ⟨none, []⟩

end BlockPart

/-- A part of a class or module: its name, its superclass, or statements of its body. -/
inductive NamespacePart where
  | name (n : Node)
  | superclass (n : Option Node)
  | statements (l : List Node)

namespace NamespacePart

def addTo (s : Namespace) : NamespacePart → Namespace
  | name n => { s with name := n }
  | superclass n => { s with superclass := n }
  | statements l => { s with body := s.body ++ l }

def assemble (kind : NamespaceKind) (line : Nat) (l : List NamespacePart) : Namespace :=
  l.foldl addTo ⟨kind, .other "missing_name" [], none, [], line⟩

end NamespacePart

/-! ## Leaves -/

variable (s : Source)

def bareCall (a : Label) : Node := .call (.bare (s.text a) (s.line a))

def fieldText? (f : String) (cs : List Tree) : Option String :=
  (cs.find? (Tree.isField f)).map fun t => s.text t.label

/-- The value of a minus sign before an integer literal. -/
def negated? (cs : List Tree) : Option Int :=
  match fieldText? s "operator" cs, cs.find? (Tree.isField "operand") with
  | some "-", some t =>
    if t.kind = "integer" then (integer? (s.text t.label)).bind fun n => word? (-n) else none
  | _, _ => none

/-- A symbol's name after its colon. -/
def symbolName (text : String) : String :=
  match text.toList with
  | ':' :: r => String.ofList r
  | _ => text

/-- The key of a pair; a string directly before a colon is a symbol. -/
def labelKey (beforeColon : Bool) : Node → Node
  | .string text => if beforeColon then .symbol text else .string text
  | n => n

/-! ## Lowering -/

mutual

def lower : Tree → Node
  | .node a cs =>
    match Form.ofKind a.kind with
    | .nil => .nil
    | .truth b => .bool b
    | .integer => ((integer? (s.text a)).map Node.integer).getD (.other a.kind [])
    | .unary => ((negated? s cs).map Node.integer).getD (.other a.kind (lowerParts cs))
    | .string =>
      match stringChars? s (.node a cs) with
      | some text => .string (String.ofList text)
      | none => .other a.kind (lowerParts cs)
    | .chainedString =>
      match chainedChars? s (cs.filter Tree.isPart) with
      | some text => .string (String.ofList text)
      | none => .other a.kind (lowerParts cs)
    | .simpleSymbol => .symbol (symbolName (s.text a))
    | .keySymbol => .symbol (s.text a)
    | .quotedSymbol =>
      match stringChars? s (.node a cs) with
      | some text => .symbol (String.ofList text)
      | none => .other a.kind (lowerParts cs)
    | .array => .array (lowerParts cs)
    | .hash => .hash (lowerElements cs)
    | .constant => .constant (s.text a)
    | .scopeResolution => .constantPath (lowerField "scope" cs) ((fieldText? s "name" cs).getD "")
    | .call =>
      .call {
        receiver := lowerField "receiver" cs
        name := (fieldText? s "method" cs).getD "call"
        arguments := Argument.gather (lowerArguments cs)
        block := lowerBlockField cs
        line := s.line a }
    | .assignment =>
      match lowerWriter cs, lowerField "right" cs with
      | some (receiver, method), some value =>
        .call ⟨some receiver, method ++ "=", [value], none, s.line a⟩
      | _, _ => .other a.kind (lowerParts cs)
    | .lambda => .lambda (BlockPart.assemble (lowerBlock cs))
    | .classBody => .space (NamespacePart.assemble .classBody (s.line a) (lowerNamespace cs))
    | .moduleBody => .space (NamespacePart.assemble .moduleBody (s.line a) (lowerNamespace cs))
    | .method => .methodDef ((fieldText? s "name" cs).getD "")
    | .container => .other a.kind (lowerStatements cs)
    | _ => .other a.kind (lowerParts cs)

/-- The named children, each as an expression. -/
def lowerParts : List Tree → List Node
  | [] => []
  | t :: r => if t.isPart then lower t :: lowerParts r else lowerParts r

/-- The named children as statements: bodies are opened and bare identifiers are calls. -/
def lowerStatements : List Tree → List Node
  | [] => []
  | .node a cs :: r =>
    if !(Tree.node a cs).isPart then lowerStatements r
    else match Form.ofKind a.kind with
      | .bodyStatement | .blockBody => lowerStatements cs ++ lowerStatements r
      | .identifier => bareCall s a :: lowerStatements r
      | _ => lower (.node a cs) :: lowerStatements r

def lowerField (f : String) : List Tree → Option Node
  | [] => none
  | t :: r => if t.isField f then some (lower t) else lowerField f r

def lowerFirst : List Tree → Option Node
  | [] => none
  | t :: r => if t.isPart then some (lower t) else lowerFirst r

def lowerKey : List Tree → Option Node
  | [] => none
  | t :: r =>
    if t.isField "key" then some (labelKey (r.head?.any (·.kind == ":")) (lower t))
    else lowerKey r

/-- The element that a child of a hash or argument list stands for; a pair needs a key. -/
def lowerElement : Tree → Option HashElement
  | .node a cs =>
    match Form.ofKind a.kind with
    | .pair =>
      (lowerKey cs).map fun key => .assoc key ((lowerField "value" cs).getD (.other "implicit" []))
    | .hashSplat => some (.splat (.other a.kind (lowerParts cs)))
    | _ => none

def lowerElements : List Tree → List HashElement
  | [] => []
  | t :: r => if t.isPart then (lowerElement t).toList ++ lowerElements r else lowerElements r

def lowerArguments : List Tree → List Argument
  | [] => []
  | .node a cs :: r =>
    if (Tree.node a cs).isField "arguments" then lowerArgumentList cs else lowerArguments r

def lowerArgumentList : List Tree → List Argument
  | [] => []
  | t :: r =>
    if !t.isPart then lowerArgumentList r
    else match Form.ofKind t.kind with
      | .pair | .hashSplat => ((lowerElement t).map .keyword).toList ++ lowerArgumentList r
      | _ => .positional (lower t) :: lowerArgumentList r

def lowerBlockField : List Tree → Option Block
  | [] => none
  | .node a cs :: r =>
    if (Tree.node a cs).isField "block" then some (BlockPart.assemble (lowerBlock cs))
    else lowerBlockField r

def lowerBlock : List Tree → List BlockPart
  | [] => []
  | .node a cs :: r =>
    if !(Tree.node a cs).isPart then lowerBlock r
    else match Form.ofKind a.kind with
      | .blockParameters => .parameters (.ofTrees s cs) :: lowerBlock r
      | .bodyStatement | .blockBody => .statements (lowerStatements cs) :: lowerBlock r
      | .block => .inner (BlockPart.assemble (lowerBlock cs)) :: lowerBlock r
      | .identifier => .statements [bareCall s a] :: lowerBlock r
      | _ => .statements [lower (.node a cs)] :: lowerBlock r

/-- The receiver and the name of the attribute that the left side of an assignment writes to. -/
def lowerWriter : List Tree → Option (Node × String)
  | [] => none
  | .node a cs :: r =>
    if (Tree.node a cs).isField "left" then
      if a.kind = "call" then
        match lowerField "receiver" cs, fieldText? s "method" cs with
        | some receiver, some method => some (receiver, method)
        | _, _ => none
      else none
    else lowerWriter r

def lowerNamespace : List Tree → List NamespacePart
  | [] => []
  | .node a cs :: r =>
    if (Tree.node a cs).isField "name" then .name (lower (.node a cs)) :: lowerNamespace r
    else if (Tree.node a cs).isField "superclass" then
      .superclass (lowerFirst cs) :: lowerNamespace r
    else if !(Tree.node a cs).isPart then lowerNamespace r
    else match Form.ofKind a.kind with
      | .bodyStatement => .statements (lowerStatements cs) :: lowerNamespace r
      | .identifier => .statements [bareCall s a] :: lowerNamespace r
      | _ => .statements [lower (.node a cs)] :: lowerNamespace r

end

/-! ## Programs -/

/-- The lowered statements below the root of a file's tree. -/
def Program.ofTree (root : Tree) : Program := ⟨lowerStatements s root.children, root.faults⟩

end ModelSurvey.Syntax
