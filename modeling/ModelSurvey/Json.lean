/-! JSON documents and their two written forms. An object keeps its members in order and may repeat
a key. The compact form has no blanks; the indented form puts each item on a line of its own, two
spaces deeper than its container, and leaves empty containers on one line. -/
namespace ModelSurvey
set_option autoImplicit false

inductive Json where
  | null
  | bool (b : Bool)
  | int (n : Int)
  | str (s : String)
  | arr (items : List Json)
  | obj (members : List (String × Json))

namespace Json

/-! ## Strings -/

/-- Four lower-case hexadecimal digits. -/
def hex4 (n : Nat) : List Char :=
  let ds := Nat.toDigits 16 n
  List.replicate (4 - ds.length) '0' ++ ds

def escapeChar (c : Char) : List Char :=
  if c = '"' ∨ c = '\\' then ['\\', c]
  else if c = '\x08' then ['\\', 'b']
  else if c = '\t' then ['\\', 't']
  else if c = '\n' then ['\\', 'n']
  else if c = '\x0c' then ['\\', 'f']
  else if c = '\r' then ['\\', 'r']
  else if c.toNat < 0x20 then '\\' :: 'u' :: hex4 c.toNat
  else [c]

def escape (s : String) : String :=
  String.ofList ('"' :: s.toList.flatMap escapeChar ++ ['"'])

def truth (b : Bool) : String := if b then "true" else "false"

/-! ## Compact form -/

mutual

def compact : Json → String
  | null => "null"
  | bool b => truth b
  | int n => toString n
  | str s => escape s
  | arr items => "[" ++ ",".intercalate (compactItems items) ++ "]"
  | obj members => "\x7b" ++ ",".intercalate (compactMembers members) ++ "\x7d"

def compactItems : List Json → List String
  | [] => []
  | j :: r => compact j :: compactItems r

def compactMembers : List (String × Json) → List String
  | [] => []
  | (k, j) :: r => (escape k ++ ":" ++ compact j) :: compactMembers r

end

/-! ## Indented form -/

def indentation (depth : Nat) : String := String.ofList (List.replicate (2 * depth) ' ')

/-- A container at `depth` whose items are written already. -/
def stacked (depth : Nat) (opening closing : String) (items : List String) : String :=
  match items with
  | [] => opening ++ closing
  | _ =>
    let lines := items.map fun s => "\n" ++ indentation (depth + 1) ++ s
    opening ++ ",".intercalate lines ++ "\n" ++ indentation depth ++ closing

mutual

def indented (depth : Nat) : Json → String
  | null => "null"
  | bool b => truth b
  | int n => toString n
  | str s => escape s
  | arr items => stacked depth "[" "]" (indentedItems (depth + 1) items)
  | obj members => stacked depth "\x7b" "\x7d" (indentedMembers (depth + 1) members)

def indentedItems (depth : Nat) : List Json → List String
  | [] => []
  | j :: r => indented depth j :: indentedItems depth r

def indentedMembers (depth : Nat) : List (String × Json) → List String
  | [] => []
  | (k, j) :: r => (escape k ++ ": " ++ indented depth j) :: indentedMembers depth r

end

def pretty (j : Json) : String := indented 0 j

end Json

end ModelSurvey
