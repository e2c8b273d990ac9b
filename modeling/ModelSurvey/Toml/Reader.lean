import ModelSurvey.Toml.Basic
import ModelSurvey.Toml.Number
import ModelSurvey.Toml.Quoted

/-! Reading TOML documents, line by line. Keys have fewer than 80 parts and values nest fewer than 80
deep. Arrays may span lines and end in a comma; inline tables may do neither. Each reader gives what
it read and the text that follows. -/
namespace ModelSurvey.Toml
set_option autoImplicit false

def nestingLimit : Nat := 80

/-! ## Blanks, comments and line ends -/

def skipBlanks (cs : List Char) : List Char := cs.dropWhile isSpaceOrTab

/-- What follows the comment that starts here, if one does. -/
def skipComment : List Char → List Char
  | '#' :: r => r.dropWhile isLineChar
  | cs => cs

/-- The text after the end of the line; only blanks and a comment may come before. -/
def lineEnd? (cs : List Char) : Option (List Char) :=
  match skipComment (skipBlanks cs) with
  | [] => some []
  | '\n' :: r => some r
  | '\r' :: '\n' :: r => some r
  | _ => none

theorem length_skipBlanks (cs : List Char) : (skipBlanks cs).length ≤ cs.length :=
  (List.dropWhile_sublist _).length_le

/-- Skips blanks, line ends and comments that end in a line end. -/
def skipSpace (cs : List Char) : List Char :=
  match _h : skipBlanks cs with
  | '\n' :: r => skipSpace r
  | '\r' :: '\n' :: r => skipSpace r
  | '#' :: r =>
    match _g : r.dropWhile isLineChar with
    | '\n' :: r' => skipSpace r'
    | '\r' :: '\n' :: r' => skipSpace r'
    | _ => '#' :: r
  | rest => rest
termination_by cs.length
decreasing_by
  all_goals have hl := length_skipBlanks cs
  all_goals rw [_h] at hl
  all_goals simp only [List.length_cons] at hl
  · omega
  · omega
  · have gl := (List.dropWhile_sublist isLineChar (l := r)).length_le
    rw [_g] at gl
    simp only [List.length_cons] at gl
    omega
  · have gl := (List.dropWhile_sublist isLineChar (l := r)).length_le
    rw [_g] at gl
    simp only [List.length_cons] at gl
    omega

/-! ## Keys -/

def isBareKeyChar (c : Char) : Bool := c.isAlphanum || c == '_' || c == '-'

/-- One part of a key: bare, or a one-line string. -/
def keyPart? : List Char → Option (String × List Char)
  | '"' :: r => (readBasic r).map fun m => (String.ofList m.1, m.2)
  | '\x27' :: r => (readLiteral r).map fun m => (String.ofList m.1, m.2)
  | cs =>
    match cs.takeWhile isBareKeyChar with
    | [] => none
    | w => some (String.ofList w, cs.dropWhile isBareKeyChar)

/-- Items with a separator between them. An item has to take something from the text. -/
def separated {α : Type} (item : List Char → Option (α × List Char)) (sep : Char) (cs : List Char) :
    Option (List α × List Char) :=
  match item cs with
  | none => none
  | some (a, d :: r) =>
    if _h : d = sep ∧ r.length < cs.length then
      (separated item sep r).map fun m => (a :: m.1, m.2)
    else some ([a], d :: r)
  | some (a, []) => some ([a], [])
termination_by cs.length
decreasing_by exact _h.2

/-- A dotted key: the parts before the last one, and the last one. -/
def key? (cs : List Char) : Option ((List String × String) × List Char) :=
  let part (cs : List Char) := (keyPart? (skipBlanks cs)).map fun m => (m.1, skipBlanks m.2)
  (separated part '.' cs).bind fun m =>
    if nestingLimit ≤ m.1.length then none
    else m.1.getLast?.map fun last => ((m.1.dropLast, last), m.2)

/-! ## Values -/

/-- A value that holds no other. -/
def scalar? (cs : List Char) : Option (Toml × List Char) :=
  match cs with
  | '"' :: _ | '\x27' :: _ => (readString cs).map fun m => (.string (String.ofList m.1), m.2)
  | 't' :: 'r' :: 'u' :: 'e' :: r => some (.boolean true, r)
  | 'f' :: 'a' :: 'l' :: 's' :: 'e' :: r => some (.boolean false, r)
  | _ =>
    let written (rest : List Char) := String.ofList (cs.take (cs.length - rest.length))
    match dateTime? cs, float? cs with
    | some r, _ => some (.date (written r), r)
    | none, some r => some (.float (written r), r)
    | none, none => (integer? cs).map fun m => (.integer m.1, m.2)

/-- The items of an array after its opening bracket, up to the closing one. -/
def arrayItems (value : List Char → Option (Toml × List Char)) (cs : List Char) :
    Option (List Toml × List Char) :=
  match skipSpace cs with
  | ']' :: r => some ([], r)
  | start =>
    match value start with
    | none => none
    | some (v, rest) =>
      match skipSpace rest with
      | ']' :: r => some ([v], r)
      | ',' :: r =>
        if _h : r.length < cs.length then (arrayItems value r).map fun m => (v :: m.1, m.2) else none
      | _ => none
termination_by cs.length

def pair? (value : List Char → Option (Toml × List Char)) (cs : List Char) :
    Option ((List String × String × Toml) × List Char) :=
  match key? cs with
  | some ((path, key), '=' :: r) =>
    (value (skipBlanks r)).map fun m => ((path, key, m.1), skipBlanks m.2)
  | _ => none

/-- An inline table after its opening brace, up to the closing one. -/
def inlinePairs (value : List Char → Option (Toml × List Char)) (cs : List Char) :
    Option (Toml × List Char) :=
  match skipBlanks cs with
  | '\x7d' :: r => some (.table .inline [], r)
  | start =>
    match separated (pair? value) ',' start with
    | some (pairs, '\x7d' :: r) => (inlineTable? pairs).map fun t => (t, r)
    | _ => none

/-- A value that starts here and nests at most `depth` deep. -/
def value? : Nat → List Char → Option (Toml × List Char)
  | depth, cs =>
    match cs, depth with
    | '[' :: _, 0 => none
    | '[' :: r, d + 1 => (arrayItems (value? d) r).map fun m => (.array m.1, m.2)
    | '\x7b' :: _, 0 => none
    | '\x7b' :: r, d + 1 => inlinePairs (value? d) r
    | cs, _ => scalar? cs

/-! ## Documents -/

/-- A header or an assignment at the start of a line. -/
def statement? (cs : List Char) : Option (Statement × List Char) :=
  match cs with
  | '[' :: '[' :: r =>
    match key? r with
    | some ((path, key), ']' :: ']' :: rest) => some (.arrayHeader path key, rest)
    | _ => none
  | '[' :: r =>
    match key? r with
    | some ((path, key), ']' :: rest) => some (.header path key, rest)
    | _ => none
  | cs => (pair? (value? (nestingLimit - 1)) cs).map fun m => (.assign m.1.1 m.1.2.1 m.1.2.2, m.2)

def statements (cs : List Char) : Option (List Statement) :=
  match skipBlanks cs with
  | [] => some []
  | c :: r =>
    if c = '#' ∨ c = '\n' ∨ c = '\r' then
      match lineEnd? (c :: r) with
      | none => none
      | some rest => if _h : rest.length < cs.length then statements rest else some []
    else
      match statement? (c :: r) with
      | none => none
      | some (st, after) =>
        match lineEnd? after with
        | none => none
        | some rest =>
          if _h : rest.length < cs.length then (statements rest).map (st :: ·) else none
termination_by cs.length

/-- The entries of a document; a byte order mark in front is skipped. -/
def document? (text : String) : Option Entries :=
  let cs := match text.toList with
    | '\uFEFF' :: r => r
    | cs => cs
  (statements cs).bind ofStatements?

end ModelSurvey.Toml
