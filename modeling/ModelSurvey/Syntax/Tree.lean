import ModelSurvey.Text.Blank

/-! Concrete syntax trees. A tree node carries the kind the grammar gives it, how it was recovered,
the field its parent holds it under and the bytes it spans; the text itself is kept apart, in a
`Source`. Trees can be read from a listing of their nodes in pre-order with depths. -/
namespace ModelSurvey.Syntax
set_option autoImplicit false

structure Label where
  kind : String
  named : Bool
  extra : Bool
  erroneous : Bool
  missing : Bool
  field : Option String
  start : Nat
  stop : Nat
deriving DecidableEq, Repr, Inhabited

inductive Tree where
  | node (label : Label) (children : List Tree)

namespace Tree

def label : Tree → Label
  | node a _ => a

def children : Tree → List Tree
  | node _ cs => cs

def kind (t : Tree) : String := t.label.kind

def isField (f : String) (t : Tree) : Bool := t.label.field == some f

/-- Named and not an extra: comments and the bodies of here-documents are extras. -/
def isPart (t : Tree) : Bool := t.label.named && !t.label.extra

def field? (f : String) (t : Tree) : Option Tree := t.children.find? (isField f)

def parts (t : Tree) : List Tree := t.children.filter isPart

/-! ## Errors -/

def isFault (a : Label) : Bool := a.erroneous || a.missing

mutual

/-- Whether some node of the tree stands for text that the grammar rejects or misses. -/
def hasFault : Tree → Bool
  | node a cs => isFault a || anyFault cs

def anyFault : List Tree → Bool
  | [] => false
  | t :: r => hasFault t || anyFault r

end

mutual

def size : Tree → Nat
  | node _ cs => 1 + sizeAll cs

def sizeAll : List Tree → Nat
  | [] => 0
  | t :: r => size t + sizeAll r

end

theorem size_pos (t : Tree) : 0 < t.size := by
  cases t with
  | node a cs =>
    rw [size]
    omega

/-! ## Listings -/

structure Row where
  depth : Nat
  label : Label
deriving Repr, Inhabited

/-- The rows before the first one of depth `d` or less. -/
def deeper (d : Nat) (rows : List Row) : List Row := rows.takeWhile fun r => d < r.depth

/-- The rows from the first one of depth `d` or less on. -/
def afterwards (d : Nat) (rows : List Row) : List Row := rows.dropWhile fun r => d < r.depth

/-- The trees of a listing: a row's children are the rows below it. -/
def forest (rows : List Row) : List Tree :=
  match rows with
  | [] => []
  | r :: rest => .node r.label (forest (deeper r.depth rest)) :: forest (afterwards r.depth rest)
termination_by rows.length
decreasing_by
  · exact Nat.lt_succ_of_le (List.takeWhile_sublist _).length_le
  · exact Nat.lt_succ_of_le (List.dropWhile_sublist _).length_le

@[simp] theorem forest_nil : forest [] = [] := by rw [forest]

theorem forest_cons (r : Row) (rest : List Row) :
    forest (r :: rest) =
      .node r.label (forest (deeper r.depth rest)) :: forest (afterwards r.depth rest) := by
  rw [forest]

def ofRows? (rows : List Row) : Option Tree := (forest rows).head?

end Tree

/-! ## Source text -/

structure Source where
  bytes : List UInt8

namespace Source

def ofString (s : String) : Source := ⟨s.toUTF8.data.toList⟩

/-- The text of some bytes, if they are UTF-8. -/
def decode? (bytes : List UInt8) : Option String := String.fromUTF8? ⟨bytes.toArray⟩

def text (s : Source) (a : Label) : String :=
  (decode? ((s.bytes.take a.stop).drop a.start)).getD ""

/-- Whether a line is blank or a comment. -/
def isIdleLine (line : List UInt8) : Bool :=
  match line.dropWhile fun b => b == 0x20 || (0x09 ≤ b && b ≤ 0x0d) with
  | [] => true
  | b :: _ => b == 0x23

/-- Whether all lines are blank or comments, so that there is nothing to parse. -/
def isIdle (s : Source) : Bool := (Text.pieces (· == 0x0a) s.bytes).all isIdleLine

/-- The line a node starts on, counted from 1. -/
def line (s : Source) (a : Label) : Nat := (s.bytes.take a.start).count 10 + 1

end Source

end ModelSurvey.Syntax
