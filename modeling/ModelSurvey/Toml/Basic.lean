/-! TOML documents. A table remembers how it came about, because that decides what may still be added
to it: a table under a header is closed to dotted keys, one that a longer header implies is open to
both, one that dotted keys made is open to them, and an inline table is closed. No setting is a
float or a date, so these are kept as written. -/
namespace ModelSurvey
set_option autoImplicit false

namespace Toml

inductive TableKind where
  | header
  | implied
  | dotted
  | inline
deriving DecidableEq, Repr, Inhabited

end Toml

inductive Toml where
  | string (text : String)
  | integer (n : Int)
  | boolean (b : Bool)
  | float (written : String)
  | date (written : String)
  | array (items : List Toml)
  | table (kind : Toml.TableKind) (entries : List (String × Toml))
  | tables (elements : List (List (String × Toml)))

namespace Toml

instance : Inhabited Toml := ⟨boolean false⟩

abbrev Entries := List (String × Toml)

def replace (key : String) (v : Toml) (es : Entries) : Entries :=
  es.map fun e => if e.1 = key then (key, v) else e

/-- Whether a path may lead on through a table: one of dotted keys, or one of a header. -/
def TableKind.admits (byDots : Bool) : TableKind → Bool
  | .header => !byDots
  | .implied | .dotted => true
  | .inline => false

/-- Changes the table at the end of a path, making the tables on the way. In an array of tables the
path goes on in the last one. -/
def update (byDots : Bool) (f : TableKind → Entries → Option Entries) :
    List String → TableKind → Entries → Option Entries
  | [], kind, es => f kind es
  | k :: path, _, es =>
    match es.lookup k with
    | none =>
      let kind := if byDots then .dotted else .implied
      (update byDots f path kind []).map fun new => es ++ [(k, .table kind new)]
    | some (.table kind inner) =>
      if kind.admits byDots then
        (update byDots f path kind inner).map fun new => replace k (.table kind new) es
      else none
    | some (.tables elements) =>
      (update byDots f path .header (elements.getLast?.getD [])).map fun new =>
        replace k (.tables (elements.dropLast ++ [new])) es
    | some _ => none

/-- Adds a key at the end of a dotted path, which must lead to a table of dotted keys. -/
def insertDotted (path : List String) (key : String) (v : Toml) (kind : TableKind) (es : Entries) :
    Option Entries :=
  update true (fun kind es =>
    if (kind == .dotted) == path.isEmpty then none
    else if (es.lookup key).isSome then none
    else some (es ++ [(key, v)])) path kind es

/-! ## Documents -/

/-- One line of a document. A path ends in `key`. -/
inductive Statement where
  | header (path : List String) (key : String)
  | arrayHeader (path : List String) (key : String)
  | assign (path : List String) (key : String) (v : Toml)

/-- A document under construction, and the path of the table that assignments go to. -/
structure Draft where
  entries : Entries
  current : List String

namespace Draft

def openTable (key : String) (_ : TableKind) (es : Entries) : Option Entries :=
  match es.lookup key with
  | none => some (es ++ [(key, .table .header [])])
  | some (.table .implied inner) => some (replace key (.table .header inner) es)
  | some _ => none

def openElement (key : String) (_ : TableKind) (es : Entries) : Option Entries :=
  match es.lookup key with
  | none => some (es ++ [(key, .tables [[]])])
  | some (.tables elements) => some (replace key (.tables (elements ++ [[]])) es)
  | some _ => none

def add (d : Draft) : Statement → Option Draft
  | .header path key =>
    (update false (openTable key) path .header d.entries).map fun es => ⟨es, path ++ [key]⟩
  | .arrayHeader path key =>
    (update false (openElement key) path .header d.entries).map fun es => ⟨es, path ++ [key]⟩
  | .assign path key v =>
    (update false (insertDotted path key v) d.current .header d.entries).map fun es =>
      ⟨es, d.current⟩

end Draft

/-- The entries of a document, unless some line contradicts an earlier one. -/
def ofStatements? (l : List Statement) : Option Entries :=
  (l.foldlM Draft.add ⟨[], []⟩).map Draft.entries

/-- An inline table with these pairs of dotted keys and values. -/
def inlineTable? (pairs : List (List String × String × Toml)) : Option Toml :=
  (pairs.foldlM (fun es p => insertDotted p.1 p.2.1 p.2.2 .inline es) ([] : Entries)).map
    (.table .inline)

end Toml

end ModelSurvey
